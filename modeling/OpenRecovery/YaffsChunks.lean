import OpenRecovery.Unyaffs
import Mathlib

/-!
# Chunks are read as they were written

What mkyaffs2image writes for one object makes unyaffs take one step: it makes the object and
goes on with what follows in the image.
-/

namespace OpenRecovery.Yaffs

open Words

section Chunks

variable (leftover : UInt32 → UInt32 → Nat → UInt8) {data : Bytes} (objId chunkId nBytes : UInt32)

theorem writeChunk_eq :
    ∃ behind : Bytes, behind.length = 48 ∧
      writeChunk leftover data objId chunkId nBytes =
        data ++ ((PackedTags.mk lowestSequenceNumber objId chunkId nBytes).bytes ++ behind) := by
  refine ⟨(List.range 48).map (leftover objId chunkId), ?_, ?_⟩
  · rw [List.length_map, List.length_range]
  · rw [writeChunk, List.append_assoc, packTags2_plain rfl]

theorem writeChunk_length (hdata : data.length = chunkSize) :
    (writeChunk leftover data objId chunkId nBytes).length = chunkSize + spareSize := by
  obtain ⟨behind, hbehind, hchunk⟩ := writeChunk_eq leftover objId chunkId nBytes
  rw [hchunk, List.length_append, List.length_append, PackedTags.bytes_length, hbehind, hdata]
  rfl

theorem readChunk_writeChunk (hdata : data.length = chunkSize) (rest : Bytes) :
    readChunk (writeChunk leftover data objId chunkId nBytes ++ rest) =
      some (writeChunk leftover data objId chunkId nBytes, rest) := by
  have hlength := writeChunk_length leftover objId chunkId nBytes hdata
  rw [readChunk, if_neg (by rw [List.length_append]; omega), List.take_left' hlength,
    List.drop_left' hlength]

theorem tags_writeChunk (hdata : data.length = chunkSize) :
    PackedTags.ofBytes ((writeChunk leftover data objId chunkId nBytes).drop chunkSize) =
      ⟨lowestSequenceNumber, objId, chunkId, nBytes⟩ := by
  obtain ⟨behind, _, hchunk⟩ := writeChunk_eq leftover objId chunkId nBytes
  rw [hchunk, List.drop_left' hdata, PackedTags.ofBytes_bytes]

theorem take_writeChunk {count : Nat} (hcount : count ≤ data.length) :
    (writeChunk leftover data objId chunkId nBytes).take count = data.take count := by
  obtain ⟨behind, _, hchunk⟩ := writeChunk_eq leftover objId chunkId nBytes
  rw [hchunk, List.take_append_of_le_length hcount]

end Chunks

section Files

variable (leftover : UInt32 → UInt32 → Nat → UInt8)

theorem Disk.write_file {disk : Disk} {number : Nat} {before : Bytes}
    (hfile : disk.files number = .file before) (data : Bytes) :
    disk.write number data = disk.setFile number (.file (before ++ data)) := by
  rw [Disk.write, hfile]

theorem Disk.setFile_setFile (disk : Disk) (number : Nat) (first second : FileObject) :
    (disk.setFile number first).setFile number second = disk.setFile number second :=
  congrArg (fun files => Disk.mk disk.names files disk.next disk.used)
    (Function.update_idem ..)

theorem Disk.setFile_self {disk : Disk} {number : Nat} {object : FileObject}
    (hfile : disk.files number = object) : disk.setFile number object = disk :=
  congrArg (fun files => Disk.mk disk.names files disk.next disk.used)
    (by rw [← hfile, Function.update_eq_self])

/-- A data chunk is appended. -/
theorem extractData_chunk {number fuel remain : Nat} {piece : Bytes} (hpiece : 0 < piece.length)
    (hfits : piece.length ≤ chunkSize) (hremain : piece.length ≤ remain) (objId chunkId : UInt32)
    (rest : Bytes) (disk : Disk) :
    extractData (some number) (fuel + 1) remain
        (writeChunk leftover (piece ++ filled (chunkSize - piece.length)) objId chunkId
          (UInt32.ofNat piece.length) ++ rest) disk =
      extractData (some number) fuel (remain - piece.length) rest (disk.write number piece) := by
  have hsize : chunkSize = 2048 := rfl
  have hdata : (piece ++ filled (chunkSize - piece.length)).length = chunkSize := by
    rw [List.length_append, filled_length]
    omega
  have hcount : (UInt32.ofNat piece.length).toNat = piece.length :=
    UInt32.toNat_ofNat_of_lt' (by rw [UInt32.size]; omega)
  have hshort : (if remain < piece.length then remain else piece.length) = piece.length :=
    if_neg (by omega)
  have htake : (writeChunk leftover (piece ++ filled (chunkSize - piece.length)) objId chunkId
      (UInt32.ofNat piece.length)).take piece.length = piece := by
    rw [take_writeChunk leftover _ _ _ (by omega), List.take_left]
  rw [extractData, if_neg (by omega), readChunk_writeChunk leftover _ _ _ hdata]
  dsimp only
  rw [tags_writeChunk leftover _ _ _ hdata, hcount, hshort, if_neg (by omega), htake]

/-- The data chunks of a file are appended to it. -/
theorem extractData_writeData (objId : Nat) {number : Nat} (written chunk : Nat)
    {unread before : Bytes} (hwritten : unread.length < written) {disk : Disk}
    (hfile : disk.files number = .file before) (rest : Bytes) {fuel : Nat}
    (hfuel : (writeData leftover objId written chunk unread ++ rest).length < fuel) :
    extractData (some number) fuel unread.length
        (writeData leftover objId written chunk unread ++ rest) disk =
      .ok (true, rest, disk.setFile number (.file (before ++ unread))) := by
  induction written generalizing chunk unread before disk fuel with
  | zero => omega
  | succ written ih =>
      cases fuel with
      | zero => omega
      | succ fuel =>
          have hpiece : (unread.take chunkSize).length = min chunkSize unread.length :=
            List.length_take
          have hsize : chunkSize = 2048 := rfl
          rw [writeData] at hfuel ⊢
          by_cases hnone : 0 < (unread.take chunkSize).length
          · rw [if_pos hnone] at hfuel ⊢
            have hrest : unread.length - (unread.take chunkSize).length =
                (unread.drop chunkSize).length := by
              rw [List.length_drop]
              omega
            have happended : (disk.write number (unread.take chunkSize)).files number =
                .file (before ++ unread.take chunkSize) := by
              rw [Disk.write_file hfile]
              exact Function.update_self ..
            rw [List.append_assoc, extractData_chunk leftover hnone (by omega) (by omega), hrest,
              ih (chunk + 1) (by rw [List.length_drop]; omega) happended, Disk.write_file hfile,
              Disk.setFile_setFile, List.append_assoc, List.take_append_drop]
            rw [List.append_assoc, List.length_append,
              writeChunk_length leftover _ _ _ (by rw [List.length_append, filled_length]; omega)]
              at hfuel
            omega
          · obtain rfl : unread = [] := List.length_eq_zero_iff.1 (by omega)
            rw [if_neg hnone, extractData, if_pos List.length_nil, List.append_nil,
              Disk.setFile_self hfile]
            rfl

end Files

/-! ## Headers -/

section Headers

variable {t : ObjectType} {s : SourceFile} {parent : Nat} {name : Bytes} {equivalentObj : Int}
  {aliasName : Bytes}

theorem objectHeader_common :
    (objectHeader t s parent name equivalentObj aliasName).type = t.code ∧
      (objectHeader t s parent name equivalentObj aliasName).parentObjectId = UInt32.ofNat parent ∧
      (objectHeader t s parent name equivalentObj aliasName).name =
        strncpy ObjectHeader.blank.name name maxNameLength := by
  cases t <;> exact ⟨rfl, rfl, rfl⟩

theorem objectHeader_fileSize :
    (objectHeader .file s parent name equivalentObj aliasName).fileSize =
      UInt32.ofNat s.data.length := rfl

theorem objectHeader_equivalent :
    (objectHeader .hardlink s parent name equivalentObj aliasName).equivalentObjectId =
      UInt32.ofInt equivalentObj := rfl

theorem objectHeader_alias :
    (objectHeader .symlink s parent name equivalentObj aliasName).aliasName =
      strncpy ObjectHeader.blank.aliasName aliasName maxAliasLength := rfl

theorem ofCode_objectHeader :
    ObjectType.ofCode (objectHeader t s parent name equivalentObj aliasName).type = some t := by
  rw [(objectHeader_common).1, ObjectType.ofCode_code]

theorem readString_strncpy {count limit : Nat} (field : List.Vector UInt8 count) {text : Bytes}
    (hlimit : limit ≤ count) (htext : ∀ byte ∈ text, byte ≠ 0) (hlength : text.length < limit) :
    readString (strncpy field text limit) = .ok text := by
  obtain ⟨hstring, hzero⟩ := cString_strncpy field hlimit htext hlength
  rw [readString, if_pos hzero, hstring]

theorem toNat_ofNat_objId {objId : Nat} (hobj : objId < maxObjects) :
    (UInt32.ofNat objId).toNat = objId := by
  apply UInt32.toNat_ofNat_of_lt'
  rw [maxObjects] at hobj
  rw [UInt32.size]
  omega

theorem pathOf_ofNat {objList : Nat → Option Bytes} {objId : Nat} {path : Bytes}
    (hobj : objId < maxObjects) (hpath : objList objId = some path) :
    pathOf objList (UInt32.ofNat objId) = .ok path := by
  rw [pathOf, toNat_ofNat_objId hobj, if_pos hobj, hpath]

theorem ofBytes_writeObjectHeader (leftover : UInt32 → UInt32 → Nat → UInt8) (objId : Nat) :
    ObjectHeader.ofBytes
        (writeObjectHeader leftover objId t s parent name equivalentObj aliasName) =
      objectHeader t s parent name equivalentObj aliasName := by
  obtain ⟨behind, _, hchunk⟩ := @writeChunk_eq leftover
    (objectHeader t s parent name equivalentObj aliasName).bytes (UInt32.ofNat objId) 0 0xffff
  rw [writeObjectHeader, hchunk, ObjectHeader.ofBytes_bytes]

/-- A header makes unyaffs process its object. -/
theorem processChunk_header (leftover : UInt32 → UInt32 → Nat → UInt8) (cwd : List Bytes)
    {objId : Nat} {parentPath : Bytes} {state : Extraction} (hobj : objId < maxObjects)
    (hparent : parent < maxObjects) (hpath : state.objList parent = some parentPath)
    (hname : ∀ byte ∈ name, byte ≠ 0) (hlength : name.length < maxNameLength) (input : Bytes) :
    processChunk cwd (writeObjectHeader leftover objId t s parent name equivalentObj aliasName)
        input state =
      processObject cwd (objectHeader t s parent name equivalentObj aliasName)
        (parentPath ++ [slash] ++ name) input
        { state with objList :=
            Function.update state.objList objId (some (parentPath ++ [slash] ++ name)) } := by
  obtain ⟨-, hparentId, hnameField⟩ :=
    @objectHeader_common t s parent name equivalentObj aliasName
  rw [processChunk, ofBytes_writeObjectHeader, writeObjectHeader,
    tags_writeChunk leftover _ _ _ (ObjectHeader.bytes_length _)]
  dsimp only
  rw [if_pos rfl, hnameField, readString_strncpy _ (by decide) hname hlength, hparentId]
  change (pathOf state.objList (UInt32.ofNat parent) >>= _) = _
  rw [pathOf_ofNat hparent hpath]
  change (if _ then _ else _) = _
  rw [toNat_ofNat_objId hobj, if_pos hobj]

end Headers

/-! ## New objects -/

theorem Disk.mkdir_free {disk : Disk} {path : List Bytes} (hfree : disk.IsFree path) :
    disk.mkdir path = disk.add path .directory :=
  if_pos hfree

theorem Disk.symlink_free {disk : Disk} {path : List Bytes} (hfree : disk.IsFree path)
    {target : Bytes} (htarget : target ≠ []) :
    disk.symlink target path = disk.add path (.link target) :=
  if_pos ⟨hfree, htarget⟩

theorem Disk.creat_free {disk : Disk} {path : List Bytes} (hfree : disk.IsFree path) :
    disk.creat path = (some disk.next, disk.add path (.file [])) :=
  if_pos hfree

theorem Disk.link_free {disk : Disk} {old new : List Bytes} {number : Nat}
    (hold : disk.names old = some number) (hplain : disk.files number ≠ .directory)
    (hfree : disk.IsFree new) :
    disk.link old new = disk.name new number (disk.used old number hold) := by
  rw [Disk.link]
  split
  case h_1 other hother =>
      obtain rfl : number = other := Option.some.inj (hold.symm.trans hother)
      exact if_pos ⟨hfree, hplain⟩
  case h_2 hnone => exact nomatch hold.symm.trans hnone

/-- A new file is filled. -/
theorem Disk.add_file (disk : Disk) (path : List Bytes) (data : Bytes) :
    (disk.add path (.file [])).setFile disk.next (.file ([] ++ data)) =
      disk.add path (.file data) :=
  congrArg (fun files => Disk.mk _ files _ (disk.add path (.file data)).used)
    (Function.update_idem ..)

section Objects

variable {cwd : List Bytes} {s : SourceFile} {parent : Nat} {name : Bytes} {equivalentObj : Int}
  {aliasName path : Bytes} {input : Bytes} {state : Extraction}

theorem processObject_directory (hfree : state.disk.IsFree (resolve cwd path)) :
    processObject cwd (objectHeader .directory s parent name equivalentObj aliasName) path input
        state =
      .ok (input, setAttributes (objectHeader .directory s parent name equivalentObj aliasName)
        path true { state with disk := state.disk.add (resolve cwd path) .directory }) := by
  rw [processObject, ofCode_objectHeader]
  dsimp only
  rw [Disk.mkdir_free hfree]

theorem processObject_symlink (hfree : state.disk.IsFree (resolve cwd path))
    (htarget : aliasName ≠ []) (hlength : aliasName.length < maxAliasLength)
    (hzero : ∀ byte ∈ aliasName, byte ≠ 0) :
    processObject cwd (objectHeader .symlink s parent name equivalentObj aliasName) path input
        state =
      .ok (input, setAttributes (objectHeader .symlink s parent name equivalentObj aliasName)
        path false { state with disk := state.disk.add (resolve cwd path) (.link aliasName) }) := by
  rw [processObject, ofCode_objectHeader]
  dsimp only
  rw [objectHeader_alias, readString_strncpy _ (by decide) hzero hlength,
    ← Disk.symlink_free hfree htarget]
  rfl

/-- The data chunks behind the header are read as well. -/
theorem processObject_file (leftover : UInt32 → UInt32 → Nat → UInt8) {objId : Nat}
    (hfree : state.disk.IsFree (resolve cwd path)) (hsize : s.data.length < 2 ^ 31) :
    processObject cwd (objectHeader .file s parent name equivalentObj aliasName) path
        (writeData leftover objId (s.data.length + 1) 0 s.data ++ input) state =
      .ok (input, setAttributes (objectHeader .file s parent name equivalentObj aliasName)
        path true { state with disk := state.disk.add (resolve cwd path) (.file s.data) }) := by
  have hcount : (UInt32.ofNat s.data.length).toNat = s.data.length :=
    UInt32.toNat_ofNat_of_lt' (by rw [UInt32.size]; omega)
  have hmade : (state.disk.add (resolve cwd path) (.file [])).files state.disk.next = .file [] :=
    Function.update_self ..
  rw [processObject, ofCode_objectHeader]
  dsimp only
  rw [Disk.creat_free hfree]
  dsimp only
  rw [objectHeader_fileSize, hcount, extractData_writeData leftover _ _ _ (Nat.lt_succ_self _)
    hmade input (Nat.lt_succ_self _), ← Disk.add_file _ _ s.data]
  rfl

end Objects

/-! ## Runs of the reader -/

/-- Reading the record takes the extraction from one state to another, whatever follows. -/
def Extracts (cwd : List Bytes) (state : Extraction) (record : Bytes) (next : Extraction) : Prop :=
  ∀ (rest : Bytes) (fuel : Nat), (record ++ rest).length < fuel →
    ∃ left, rest.length < left ∧
      extractLoop cwd fuel (record ++ rest) state = extractLoop cwd left rest next

/-- The record is a chunk with the chunks that belong to it, read in one turn of the loop. -/
def Turn (cwd : List Bytes) (state : Extraction) (record : Bytes) (next : Extraction) : Prop :=
  ∃ data body : Bytes, body.length < record.length ∧
    ∀ rest, readChunk (record ++ rest) = some (data, body ++ rest) ∧
      processChunk cwd data (body ++ rest) state = .ok (rest, next)

section Runs

variable {cwd : List Bytes} {state next last : Extraction}

theorem Extracts.trans {first second : Bytes} (hfirst : Extracts cwd state first next)
    (hsecond : Extracts cwd next second last) : Extracts cwd state (first ++ second) last := by
  intro rest fuel hfuel
  rw [List.append_assoc] at hfuel ⊢
  obtain ⟨middle, hmiddle, hleft⟩ := hfirst (second ++ rest) fuel hfuel
  obtain ⟨left, hend, hright⟩ := hsecond rest middle hmiddle
  exact ⟨left, hend, hleft.trans hright⟩

theorem Turn.extracts {record : Bytes} (hturn : Turn cwd state record next) :
    Extracts cwd state record next := by
  obtain ⟨data, body, hbody, hturn⟩ := hturn
  intro rest fuel hfuel
  rw [List.length_append] at hfuel
  cases fuel with
  | zero => omega
  | succ fuel =>
      refine ⟨fuel, by omega, ?_⟩
      rw [extractLoop, (hturn rest).1]
      dsimp only
      rw [(hturn rest).2]
      rfl

/-- A header with the chunks that belong to it is read in one turn. -/
theorem turn_object (leftover : UInt32 → UInt32 → Nat → UInt8) {objId : Nat} {t : ObjectType}
    {s : SourceFile} {parent : Nat} {name : Bytes} {equivalentObj : Int} {aliasName body : Bytes}
    (hprocess : ∀ rest,
      processChunk cwd (writeObjectHeader leftover objId t s parent name equivalentObj aliasName)
        (body ++ rest) state = .ok (rest, next)) :
    Turn cwd state
      (writeObjectHeader leftover objId t s parent name equivalentObj aliasName ++ body) next := by
  have hlength := writeChunk_length leftover (UInt32.ofNat objId) 0 0xffff
    (ObjectHeader.bytes_length (objectHeader t s parent name equivalentObj aliasName))
  refine ⟨_, body, ?_, fun rest => ⟨?_, hprocess rest⟩⟩
  · have hsize : chunkSize = 2048 := rfl
    rw [List.length_append, writeObjectHeader, hlength]
    omega
  · rw [List.append_assoc, writeObjectHeader,
      readChunk_writeChunk leftover _ _ _ (ObjectHeader.bytes_length _)]

theorem turn_header (leftover : UInt32 → UInt32 → Nat → UInt8) {objId : Nat} {t : ObjectType}
    {s : SourceFile} {parent : Nat} {name : Bytes} {equivalentObj : Int} {aliasName : Bytes}
    (hprocess : ∀ rest,
      processChunk cwd (writeObjectHeader leftover objId t s parent name equivalentObj aliasName)
        rest state = .ok (rest, next)) :
    Turn cwd state
      (writeObjectHeader leftover objId t s parent name equivalentObj aliasName) next := by
  have hobject := @turn_object _ _ _ leftover _ _ _ _ _ _ _ [] hprocess
  rw [List.append_nil] at hobject
  exact hobject

end Runs

end OpenRecovery.Yaffs
