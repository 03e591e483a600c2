import OpenRecovery.ArgsRestart
import Mathlib

/-!
# The format of a yaffs2 image

An image is a sequence of chunks of 2048 bytes, each followed by its spare area, which begins
with the packed tags.  An object is a chunk with its header; the chunks behind the header of
a file hold its data.  All numbers are little-endian.
-/

namespace OpenRecovery.Yaffs

open Words

def chunkSize : Nat := 2048

def spareSize : Nat := 64

def maxObjects : Nat := 50000

def maxNameLength : Nat := 255

def maxAliasLength : Nat := 159

def objectIdRoot : Nat := 1

def nobjectBuckets : Nat := 256

def lowestSequenceNumber : UInt32 := 0x1000

/-! ## Fields -/

def word (value : UInt32) : Bytes :=
  leBytes 4 value.toNat

def wordAt (offset : Nat) (data : Bytes) : UInt32 :=
  UInt32.ofNat (leNat ((data.drop offset).take 4))

/-- What `memset` leaves in `count` bytes. -/
def filled (count : Nat) : Bytes :=
  List.replicate count 0xff

/-- The array after `strncpy`. -/
def strncpy {count : Nat} (field : List.Vector UInt8 count) (text : Bytes) (limit : Nat) :
    List.Vector UInt8 count :=
  fieldOf count
    (text.take limit ++ List.replicate (limit - text.length) 0 ++ field.toList.drop limit)

@[simp] theorem word_length (value : UInt32) : (word value).length = 4 :=
  leBytes_length 4 _

@[simp] theorem filled_length (count : Nat) : (filled count).length = count :=
  List.length_replicate

theorem wordAt_append {before : Bytes} {offset : Nat} (hoffset : before.length = offset)
    (value : UInt32) (after : Bytes) :
    wordAt offset (before ++ (word value ++ after)) = value := by
  have hvalue : value.toNat < 256 ^ 4 := value.toNat_lt
  rw [wordAt, List.drop_left' hoffset, List.take_left' (word_length value), word,
    leNat_leBytes_of_lt hvalue, UInt32.ofNat_toNat]

theorem fieldOf_append {count : Nat} (field : List.Vector UInt8 count) (after : Bytes) :
    fieldOf count (field.toList ++ after) = field := by
  apply List.Vector.toList_injective
  change ((field.toList ++ after) ++ _).take count = field.toList
  rw [List.append_assoc, List.take_left' field.toList_length]

/-- A field lies behind the fields before it. -/
theorem flatten_at (fields : List Bytes) (place : Nat) (hplace : place < fields.length)
    (rest : Bytes) :
    fields.flatten ++ rest = (fields.take place).flatten ++
      (fields[place] ++ ((fields.drop (place + 1)).flatten ++ rest)) := by
  have hfields : fields = fields.take place ++ fields[place] :: fields.drop (place + 1) := by
    rw [List.getElem_cons_drop, List.take_append_drop]
  nth_rewrite 1 [hfields]
  rw [List.flatten_append, List.flatten_cons, List.append_assoc, List.append_assoc]

theorem wordAt_flatten {fields : List Bytes} (rest : Bytes) (offset place : Nat)
    {value : UInt32} (hfield : fields[place]? = some (word value))
    (hoffset : ((fields.take place).map List.length).sum = offset) :
    wordAt offset (fields.flatten ++ rest) = value := by
  obtain ⟨hplace, hfield⟩ := List.getElem?_eq_some_iff.1 hfield
  rw [flatten_at _ place hplace, hfield]
  exact wordAt_append (by rw [List.length_flatten, hoffset]) value _

theorem fieldOf_flatten {fields : List Bytes} (rest : Bytes) (offset place : Nat) {count : Nat}
    {field : List.Vector UInt8 count} (hfield : fields[place]? = some field.toList)
    (hoffset : ((fields.take place).map List.length).sum = offset) :
    fieldOf count ((fields.flatten ++ rest).drop offset) = field := by
  obtain ⟨hplace, hfield⟩ := List.getElem?_eq_some_iff.1 hfield
  rw [flatten_at _ place hplace, hfield,
    List.drop_left' (by rw [List.length_flatten, hoffset])]
  exact fieldOf_append field _

/-- A string that fits is found again. -/
theorem cString_strncpy {count limit : Nat} (field : List.Vector UInt8 count) {text : Bytes}
    (hlimit : limit ≤ count) (htext : ∀ byte ∈ text, byte ≠ 0) (hlength : text.length < limit) :
    cString (strncpy field text limit).toList = text ∧
      0 ∈ (strncpy field text limit).toList := by
  have hbytes : ∃ tail, (strncpy field text limit).toList = text ++ 0 :: tail := by
    change ∃ tail, ((text.take limit ++ List.replicate (limit - text.length) 0 ++
      field.toList.drop limit) ++ List.replicate count 0).take count = text ++ 0 :: tail
    rw [List.take_of_length_le hlength.le,
      show limit - text.length = limit - text.length - 1 + 1 by omega, List.replicate_succ,
      List.append_assoc, List.append_assoc, List.take_append,
      List.take_of_length_le (by omega), List.cons_append,
      show count - text.length = count - text.length - 1 + 1 by omega, List.take_succ_cons]
    exact ⟨_, rfl⟩
  obtain ⟨tail, htail⟩ := hbytes
  rw [htail]
  exact ⟨cString_append htext tail, by simp⟩

/-! ## Object headers -/

inductive ObjectType where
  | unknown
  | file
  | symlink
  | directory
  | hardlink
  | special
  deriving DecidableEq

def ObjectType.code : ObjectType → UInt32
  | .unknown => 0
  | .file => 1
  | .symlink => 2
  | .directory => 3
  | .hardlink => 4
  | .special => 5

def ObjectType.ofCode (code : UInt32) : Option ObjectType :=
  [.unknown, .file, .symlink, .directory, .hardlink, .special].find? (·.code = code)

theorem ObjectType.ofCode_code (type : ObjectType) : ofCode type.code = some type := by
  cases type <;> rfl

/-- `yaffs_ObjectHeader`, with the fields that one of the tools uses. -/
structure ObjectHeader where
  type : UInt32
  parentObjectId : UInt32
  name : List.Vector UInt8 256
  mode : UInt32
  uid : UInt32
  gid : UInt32
  atime : UInt32
  mtime : UInt32
  ctime : UInt32
  fileSize : UInt32
  equivalentObjectId : UInt32
  aliasName : List.Vector UInt8 160
  rdev : UInt32

namespace ObjectHeader

/-- The fields in their order; the unused ones and the padding keep what `memset` has left. -/
def fields (oh : ObjectHeader) : List Bytes :=
  [word oh.type, word oh.parentObjectId, filled 2, oh.name.toList, filled 2, word oh.mode,
    word oh.uid, word oh.gid, word oh.atime, word oh.mtime, word oh.ctime, word oh.fileSize,
    word oh.equivalentObjectId, oh.aliasName.toList, word oh.rdev, filled 1584]

/-- The chunk that holds the header. -/
def bytes (oh : ObjectHeader) : Bytes :=
  oh.fields.flatten

def ofBytes (data : Bytes) : ObjectHeader where
  type := wordAt 0 data
  parentObjectId := wordAt 4 data
  name := fieldOf 256 (data.drop 10)
  mode := wordAt 268 data
  uid := wordAt 272 data
  gid := wordAt 276 data
  atime := wordAt 280 data
  mtime := wordAt 284 data
  ctime := wordAt 288 data
  fileSize := wordAt 292 data
  equivalentObjectId := wordAt 296 data
  aliasName := fieldOf 160 (data.drop 300)
  rdev := wordAt 460 data

/-- The header after `memset`. -/
def blank : ObjectHeader where
  type := 0xffffffff
  parentObjectId := 0xffffffff
  name := List.Vector.replicate 256 0xff
  mode := 0xffffffff
  uid := 0xffffffff
  gid := 0xffffffff
  atime := 0xffffffff
  mtime := 0xffffffff
  ctime := 0xffffffff
  fileSize := 0xffffffff
  equivalentObjectId := 0xffffffff
  aliasName := List.Vector.replicate 160 0xff
  rdev := 0xffffffff

theorem bytes_length (oh : ObjectHeader) : oh.bytes.length = chunkSize := by
  simp only [bytes, fields, List.length_flatten, List.map_cons, List.map_nil, List.sum_cons,
    List.sum_nil, word_length, filled_length, List.Vector.toList_length]
  rfl

/-- The header is read as it was written. -/
theorem ofBytes_bytes (oh : ObjectHeader) (rest : Bytes) : ofBytes (oh.bytes ++ rest) = oh := by
  have hname : oh.name.toList.length = 256 := oh.name.toList_length
  have halias : oh.aliasName.toList.length = 160 := oh.aliasName.toList_length
  have hlengths : oh.fields.map List.length =
      [4, 4, 2, 256, 2, 4, 4, 4, 4, 4, 4, 4, 4, 160, 4, 1584] := by
    simp only [fields, List.map_cons, List.map_nil, word_length, filled_length, hname, halias]
  have hoffset : ∀ place, ((oh.fields.take place).map List.length).sum =
      (([4, 4, 2, 256, 2, 4, 4, 4, 4, 4, 4, 4, 4, 160, 4, 1584] : List Nat).take place).sum := by
    intro place
    rw [List.map_take, hlengths]
  rw [ofBytes, bytes, wordAt_flatten rest 0 0 rfl (hoffset 0),
    wordAt_flatten rest 4 1 rfl (hoffset 1), fieldOf_flatten rest 10 3 rfl (hoffset 3),
    wordAt_flatten rest 268 5 rfl (hoffset 5), wordAt_flatten rest 272 6 rfl (hoffset 6),
    wordAt_flatten rest 276 7 rfl (hoffset 7), wordAt_flatten rest 280 8 rfl (hoffset 8),
    wordAt_flatten rest 284 9 rfl (hoffset 9), wordAt_flatten rest 288 10 rfl (hoffset 10),
    wordAt_flatten rest 292 11 rfl (hoffset 11), wordAt_flatten rest 296 12 rfl (hoffset 12),
    fieldOf_flatten rest 300 13 rfl (hoffset 13), wordAt_flatten rest 460 14 rfl (hoffset 14)]

end ObjectHeader

/-! ## Tags -/

/-- `yaffs_ExtendedTags`, with the fields that are packed. -/
structure ExtendedTags where
  objectId : UInt32
  chunkId : UInt32
  byteCount : UInt32
  sequenceNumber : UInt32
  extraHeaderInfoAvailable : UInt32
  extraParentObjectId : UInt32
  extraIsShrinkHeader : UInt32
  extraShadows : UInt32
  extraObjectType : ObjectType
  extraFileLength : UInt32
  extraEquivalentObjectId : UInt32

/-- `yaffs_PackedTags2TagsPart`. -/
structure PackedTags where
  sequenceNumber : UInt32
  objectId : UInt32
  chunkId : UInt32
  byteCount : UInt32
  deriving DecidableEq

def initialiseTags : ExtendedTags where
  objectId := 0
  chunkId := 0
  byteCount := 0
  sequenceNumber := 0
  extraHeaderInfoAvailable := 0
  extraParentObjectId := 0
  extraIsShrinkHeader := 0
  extraShadows := 0
  extraObjectType := .unknown
  extraFileLength := 0
  extraEquivalentObjectId := 0

def packTags2 (t : ExtendedTags) : PackedTags :=
  if t.chunkId = 0 ∧ t.extraHeaderInfoAvailable ≠ 0 then
    { sequenceNumber := t.sequenceNumber
      objectId := (t.objectId &&& ~~~((0x0f : UInt32) <<< 28)) ||| (t.extraObjectType.code <<< 28)
      chunkId :=
        0x80000000 ||| t.extraParentObjectId
          ||| (if t.extraIsShrinkHeader ≠ 0 then 0x40000000 else 0)
          ||| (if t.extraShadows ≠ 0 then 0x20000000 else 0)
      byteCount :=
        match t.extraObjectType with
        | .hardlink => t.extraEquivalentObjectId
        | .file => t.extraFileLength
        | _ => 0 }
  else
    { sequenceNumber := t.sequenceNumber
      objectId := t.objectId
      chunkId := t.chunkId
      byteCount := t.byteCount }

/-- Without extra information the tags are packed as they are. -/
theorem packTags2_plain {t : ExtendedTags} (hplain : t.extraHeaderInfoAvailable = 0) :
    packTags2 t = ⟨t.sequenceNumber, t.objectId, t.chunkId, t.byteCount⟩ := by
  have hbranch : ¬(t.chunkId = 0 ∧ t.extraHeaderInfoAvailable ≠ 0) := fun h => h.2 hplain
  rw [packTags2, if_neg hbranch]

namespace PackedTags

def fields (pt : PackedTags) : List Bytes :=
  [word pt.sequenceNumber, word pt.objectId, word pt.chunkId, word pt.byteCount]

def bytes (pt : PackedTags) : Bytes :=
  pt.fields.flatten

def ofBytes (data : Bytes) : PackedTags where
  sequenceNumber := wordAt 0 data
  objectId := wordAt 4 data
  chunkId := wordAt 8 data
  byteCount := wordAt 12 data

theorem bytes_length (pt : PackedTags) : pt.bytes.length = 16 := rfl

theorem ofBytes_bytes (pt : PackedTags) (rest : Bytes) : ofBytes (pt.bytes ++ rest) = pt := by
  rw [ofBytes, bytes, wordAt_flatten rest 0 0 rfl rfl, wordAt_flatten rest 4 1 rfl rfl,
    wordAt_flatten rest 8 2 rfl rfl, wordAt_flatten rest 12 3 rfl rfl]

end PackedTags

end OpenRecovery.Yaffs
