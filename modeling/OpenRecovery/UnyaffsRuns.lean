import OpenRecovery.YaffsChunks
import OpenRecovery.FallibleRuns
import Mathlib

/-!
# Runs of unyaffs

The extraction of an image that may be truncated or corrupt, where files may not be created and
writes to them may fail.  What a run relies on is that the image consists of whole objects, each
of which refers to objects before it.
-/

namespace OpenRecovery.Yaffs.Restore

/-! ## Extraction -/

/-- Which calls of `creat` and of `write` succeed. -/
structure Calls where
  creat : Nat → Bool
  write : Nat → Bool

/-- The paths of the objects, the number of calls, and whether the image has ended inside of an
object or a write has failed. -/
structure Progress where
  objList : Nat → Option Bytes
  creats : Nat
  writes : Nat
  lost : Bool

section Extraction

variable (calls : Calls)

/-- The loop that copies the data chunks of a file; tells whether it came to the end. -/
def extractData (opened : Bool) :
    (fuel remain : Nat) → (input : Bytes) → Progress → Except Fault (Bool × Bytes × Progress)
  | 0, _, _, _ => .error .fuel
  | fuel + 1, remain, input, progress =>
      if remain = 0 then .ok (true, input, progress)
      else
        match readChunk input with
        | none => .ok (false, [], { progress with lost := true })
        | some (data, rest) =>
            let byteCount := (PackedTags.ofBytes (data.drop chunkSize)).byteCount.toNat
            let s := if remain < byteCount then remain else byteCount
            if chunkSize + spareSize < s then .error .buffer
            else if opened && calls.write progress.writes then
              extractData opened fuel (remain - s) rest
                { progress with writes := progress.writes + 1 }
            else .ok (false, rest, { progress with writes := progress.writes + 1, lost := true })

/-- What is done with a new object; the calls whose results make no difference are left out. -/
def processObject (oh : ObjectHeader) (input : Bytes) (progress : Progress) :
    Except Fault (Int × Bytes × Progress) :=
  match ObjectType.ofCode oh.type with
  | some .file => do
      let (complete, rest, progress) ← extractData calls (calls.creat progress.creats)
        (input.length + 1) oh.fileSize.toNat input
        { progress with creats := progress.creats + 1 }
      pure (if complete then 0 else -1, rest, progress)
  | some .symlink => do
      let _ ← readString oh.aliasName
      pure (0, input, progress)
  | some .directory => .ok (0, input, progress)
  | some .hardlink => do
      let _ ← pathOf progress.objList oh.equivalentObjectId
      pure (0, input, progress)
  | some .special => .ok (1, input, progress)
  | some .unknown => .ok (1, input, progress)
  | none => .ok (0, input, progress)

def processChunk (data input : Bytes) (progress : Progress) :
    Except Fault (Int × Bytes × Progress) :=
  let tags := PackedTags.ofBytes (data.drop chunkSize)
  if tags.byteCount = 0xffff then do
    let oh := ObjectHeader.ofBytes data
    let name ← readString oh.name
    let parentPath ← pathOf progress.objList oh.parentObjectId
    let path := parentPath ++ [slash] ++ name
    if tags.objectId.toNat < maxObjects then
      processObject calls oh input { progress with
        objList := Function.update progress.objList tags.objectId.toNat (some path) }
    else .error .objectId
  else .ok (0, input, progress)

/-- The loop of `main`, which does not look at the result of `process_chunk`. -/
def extractLoop : (fuel : Nat) → Bytes → Progress → Except Fault Progress
  | 0, _, _ => .error .fuel
  | fuel + 1, input, progress =>
      match readChunk input with
      | none => .ok { progress with lost := progress.lost || !input.isEmpty }
      | some (data, rest) => do
          let (_, rest, progress) ← processChunk calls data rest progress
          extractLoop fuel rest progress

/-- In the beginning only the root directory has a path. -/
def beginProgress (root : Bytes) : Progress where
  objList := Function.update (fun _ => none) objectIdRoot (some root)
  creats := 0
  writes := 0
  lost := false

/-- The extraction of an image below a directory, with the exit status. -/
def extract (root image : Bytes) : Except Fault (Int × Progress) := do
  let progress ← extractLoop calls (image.length + 1) image (beginProgress root)
  pure (0, progress)

end Extraction

/-! ## Whole objects -/

section Images

/-- The tags of a chunk. -/
def tagsOf (chunk : Bytes) : PackedTags :=
  PackedTags.ofBytes (chunk.drop chunkSize)

/-- The part of the data of a file that a chunk holds, by its tags. -/
def shareOf (remain : Nat) (chunk : Bytes) : Nat :=
  min remain (tagsOf chunk).byteCount.toNat

/-- Chunks that hold the data of a file, and are all written. -/
inductive FileData (calls : Calls) (opened : Bool) :
    (remain writes : Nat) → (data : Bytes) → (after : Nat) → Prop where
  | done (writes : Nat) : FileData calls opened 0 writes [] writes
  | chunk {remain writes after : Nat} {chunk data : Bytes} (hremain : remain ≠ 0)
      (hchunk : chunk.length = chunkSize + spareSize)
      (hshare : shareOf remain chunk ≤ chunkSize + spareSize) (hopened : opened = true)
      (hwrite : calls.write writes = true)
      (hdata : FileData calls opened (remain - shareOf remain chunk) (writes + 1) data after) :
      FileData calls opened remain writes (chunk ++ data) after

/-- A header with a name that ends, the number of an object before it as its parent and a number
that has a place in the table. -/
structure GoodHeader (known : List Nat) (chunk : Bytes) : Prop where
  header : (tagsOf chunk).byteCount = 0xffff
  name : 0 ∈ (ObjectHeader.ofBytes chunk).name.toList
  parent : (ObjectHeader.ofBytes chunk).parentObjectId.toNat ∈ known
  objectId : (tagsOf chunk).objectId.toNat < maxObjects

/-- What the header of an object that has no data refers to. -/
def GoodReference (known : List Nat) (chunk : Bytes) : Prop :=
  match ObjectType.ofCode (ObjectHeader.ofBytes chunk).type with
  | some .file => False
  | some .symlink => 0 ∈ (ObjectHeader.ofBytes chunk).aliasName.toList
  | some .hardlink => (ObjectHeader.ofBytes chunk).equivalentObjectId.toNat ∈ known
  | _ => True

/-- Images that consist of whole objects, each of which refers to objects before it, and whose
data are all written.  Chunks between the objects may be anything. -/
inductive Intact (calls : Calls) :
    (known : List Nat) → (creats writes : Nat) → (image : Bytes) → Prop where
  | nil {known : List Nat} {creats writes : Nat} : Intact calls known creats writes []
  | skipped {known : List Nat} {creats writes : Nat} {chunk rest : Bytes}
      (hchunk : chunk.length = chunkSize + spareSize)
      (hplain : (tagsOf chunk).byteCount ≠ 0xffff) (hrest : Intact calls known creats writes rest) :
      Intact calls known creats writes (chunk ++ rest)
  | object {known : List Nat} {creats writes : Nat} {chunk rest : Bytes}
      (hchunk : chunk.length = chunkSize + spareSize) (hheader : GoodHeader known chunk)
      (hreference : GoodReference ((tagsOf chunk).objectId.toNat :: known) chunk)
      (hrest : Intact calls ((tagsOf chunk).objectId.toNat :: known) creats writes rest) :
      Intact calls known creats writes (chunk ++ rest)
  | file {known : List Nat} {creats writes after : Nat} {chunk data rest : Bytes}
      (hchunk : chunk.length = chunkSize + spareSize) (hheader : GoodHeader known chunk)
      (hkind : ObjectType.ofCode (ObjectHeader.ofBytes chunk).type = some .file)
      (hdata : FileData calls (calls.creat creats)
        (ObjectHeader.ofBytes chunk).fileSize.toNat writes data after)
      (hrest : Intact calls ((tagsOf chunk).objectId.toNat :: known) (creats + 1) after rest) :
      Intact calls known creats writes (chunk ++ data ++ rest)

end Images

/-! ## Reading -/

section Reading

theorem readChunk_append {chunk : Bytes} (hchunk : chunk.length = chunkSize + spareSize)
    (rest : Bytes) : readChunk (chunk ++ rest) = some (chunk, rest) := by
  rw [readChunk, if_neg (by rw [List.length_append]; omega), List.take_left' hchunk,
    List.drop_left' hchunk]

theorem readChunk_eq_some {input chunk rest : Bytes} (hread : readChunk input = some (chunk, rest)) :
    chunk.length = chunkSize + spareSize ∧ input = chunk ++ rest := by
  rw [readChunk] at hread
  split at hread
  · cases hread
  · next hlong =>
      cases hread
      exact ⟨List.length_take_of_le (by omega), (List.take_append_drop _ _).symm⟩

theorem length_of_readChunk {input chunk rest : Bytes}
    (hread : readChunk input = some (chunk, rest)) : rest.length < input.length := by
  obtain ⟨hchunk, rfl⟩ := readChunk_eq_some hread
  have hsize : chunkSize = 2048 := rfl
  rw [List.length_append]
  omega

theorem readString_ok_iff {count : Nat} {field : List.Vector UInt8 count} :
    (∃ text, readString field = .ok text) ↔ 0 ∈ field.toList := by
  by_cases hzero : 0 ∈ field.toList
  · exact ⟨fun _ => hzero, fun _ => ⟨_, if_pos hzero⟩⟩
  · refine ⟨?_, fun hends => absurd hends hzero⟩
    rintro ⟨text, htext⟩
    rw [readString, if_neg hzero] at htext
    cases htext

/-- The numbers of the objects so far are those that have a path. -/
def Known (known : List Nat) (objList : Nat → Option Bytes) : Prop :=
  ∀ number, number ∈ known ↔ number < maxObjects ∧ objList number ≠ none

@[simp] theorem beginProgress_objList (root : Bytes) :
    (beginProgress root).objList = Function.update (fun _ => none) objectIdRoot (some root) :=
  rfl

theorem known_root (root : Bytes) : Known [objectIdRoot] (beginProgress root).objList := by
  intro number
  rw [List.mem_singleton, beginProgress_objList]
  constructor
  · rintro rfl
    rw [Function.update_self]
    exact ⟨by decide, nofun⟩
  · rintro ⟨-, hpath⟩
    by_contra hother
    exact hpath (Function.update_of_ne hother _ _)

/-- The path of a new object is kept. -/
def Progress.addPath (progress : Progress) (objectId : Nat) (path : Bytes) : Progress :=
  { progress with objList := Function.update progress.objList objectId (some path) }

@[simp] theorem Progress.addPath_objList (progress : Progress) (objectId : Nat) (path : Bytes) :
    (progress.addPath objectId path).objList =
      Function.update progress.objList objectId (some path) :=
  rfl

theorem Known.addPath {known : List Nat} {progress : Progress}
    (hknown : Known known progress.objList) {objectId : Nat} (hobject : objectId < maxObjects)
    (path : Bytes) : Known (objectId :: known) (progress.addPath objectId path).objList := by
  intro number
  rw [List.mem_cons, Progress.addPath_objList]
  by_cases hsame : number = objectId
  · subst hsame
    rw [Function.update_self]
    exact ⟨fun _ => ⟨hobject, nofun⟩, fun _ => .inl rfl⟩
  · rw [Function.update_of_ne hsame, ← hknown number]
    exact ⟨fun hmem => hmem.resolve_left hsame, .inr⟩

theorem Known.pathOf_ok_iff {known : List Nat} {objList : Nat → Option Bytes}
    (hknown : Known known objList) {objectId : UInt32} :
    (∃ path, pathOf objList objectId = .ok path) ↔ objectId.toNat ∈ known := by
  rw [hknown, pathOf]
  by_cases hobject : objectId.toNat < maxObjects
  · rw [if_pos hobject]
    cases objList objectId.toNat with
    | none => exact ⟨(by simp), fun hpath => absurd rfl hpath.2⟩
    | some path => exact ⟨fun _ => ⟨hobject, (by simp)⟩, fun _ => ⟨path, rfl⟩⟩
  · rw [if_neg hobject]
    exact ⟨(by simp), fun hpath => absurd hpath.1 hobject⟩

end Reading

/-! ## The data of a file -/

section Data

variable {calls : Calls} {opened : Bool}

theorem share_eq (remain : Nat) (chunk : Bytes) :
    (if remain < (tagsOf chunk).byteCount.toNat then remain
      else (tagsOf chunk).byteCount.toNat) = shareOf remain chunk := by
  rw [shareOf]
  split <;> omega

/-- A copy of the data either comes to the end, with all of the data there and written, or
something is lost. -/
theorem extractData_ok {fuel remain : Nat} {input rest : Bytes} {complete : Bool}
    {progress after : Progress}
    (hextract : extractData calls opened fuel remain input progress =
      .ok (complete, rest, after)) :
    (complete = true ∧ ∃ data writes, input = data ++ rest ∧
        FileData calls opened remain progress.writes data writes ∧
        after = { progress with writes := writes }) ∨
      (complete = false ∧ after.lost = true ∧ rest.length ≤ input.length) := by
  induction fuel generalizing remain input progress with
  | zero => cases hextract
  | succ fuel ih =>
      rw [extractData] at hextract
      split at hextract
      · next hremain =>
          cases hextract
          subst hremain
          exact .inl ⟨rfl, [], _, rfl, .done _, rfl⟩
      · next hremain =>
          split at hextract
          · cases hextract
            exact .inr ⟨rfl, rfl, Nat.zero_le _⟩
          · next chunk behind hread =>
              have hlength := length_of_readChunk hread
              obtain ⟨hchunk, rfl⟩ := readChunk_eq_some hread
              dsimp only at hextract
              rw [← tagsOf, share_eq] at hextract
              split at hextract
              · cases hextract
              · next hfits =>
                  split at hextract
                  · next hwritten =>
                      rw [Bool.and_eq_true] at hwritten
                      rcases ih hextract with
                        ⟨rfl, data, writes, rfl, hdata, rfl⟩ | ⟨rfl, hlost, hrest⟩
                      · refine .inl ⟨rfl, chunk ++ data, writes, ?_, ?_, rfl⟩
                        · exact (List.append_assoc _ _ _).symm
                        · exact .chunk hremain hchunk (Nat.le_of_not_lt hfits) hwritten.1
                            hwritten.2 hdata
                      · exact .inr ⟨rfl, hlost, hrest.trans hlength.le⟩
                  · cases hextract
                    exact .inr ⟨rfl, rfl, hlength.le⟩

/-- Data that are there and can be written are copied to the end. -/
theorem FileData.extractData {remain writes after : Nat} {data : Bytes}
    (hdata : FileData calls opened remain writes data after) (rest : Bytes) {fuel : Nat}
    (hfuel : (data ++ rest).length < fuel) (progress : Progress)
    (hwrites : progress.writes = writes) :
    extractData calls opened fuel remain (data ++ rest) progress =
      .ok (true, rest, { progress with writes := after }) := by
  induction hdata generalizing fuel progress with
  | done writes =>
      subst hwrites
      cases fuel with
      | zero => omega
      | succ fuel => rfl
  | @chunk remain writes after chunk data hremain hchunk hshare hopened hwrite hdata ih =>
      subst hwrites
      cases fuel with
      | zero => omega
      | succ fuel =>
          have hsize : chunkSize = 2048 := rfl
          rw [List.append_assoc, List.length_append] at hfuel
          rw [Restore.extractData, if_neg hremain, List.append_assoc, readChunk_append hchunk]
          dsimp only
          rw [← tagsOf, share_eq, if_neg (Nat.not_lt.mpr hshare), if_pos (by rw [hopened, hwrite]; rfl)]
          exact ih (by omega) _ rfl

/-- What is lost stays lost. -/
theorem extractData_lost {fuel remain : Nat} {input rest : Bytes} {complete : Bool}
    {progress after : Progress}
    (hextract : extractData calls opened fuel remain input progress =
      .ok (complete, rest, after)) (hlost : progress.lost = true) : after.lost = true := by
  rcases extractData_ok hextract with ⟨-, data, writes, -, -, rfl⟩ | ⟨-, hafter, -⟩
  · exact hlost
  · exact hafter

theorem extractData_rest {fuel remain : Nat} {input rest : Bytes} {complete : Bool}
    {progress after : Progress}
    (hextract : extractData calls opened fuel remain input progress =
      .ok (complete, rest, after)) : rest.length ≤ input.length := by
  rcases extractData_ok hextract with ⟨-, data, writes, rfl, -, -⟩ | ⟨-, -, hrest⟩
  · rw [List.length_append]
    exact Nat.le_add_left _ _
  · exact hrest

theorem extractData_terminates {fuel remain : Nat} {input : Bytes} {progress : Progress}
    (hfuel : input.length < fuel) :
    extractData calls opened fuel remain input progress ≠ .error .fuel := by
  induction fuel generalizing remain input progress with
  | zero => omega
  | succ fuel ih =>
      rw [extractData]
      split
      · nofun
      · split
        · nofun
        · next chunk behind hread =>
            have hlength := length_of_readChunk hread
            dsimp only
            rw [← tagsOf, share_eq]
            split
            · nofun
            · split
              · exact ih (by omega)
              · nofun

end Data

/-! ## An object -/

section Objects

variable {calls : Calls} {known : List Nat} {chunk : Bytes}

/-- An object is whole, or something is lost. -/
theorem processObject_ok {input rest : Bytes} {status : Int} {progress after : Progress}
    (hknown : Known known progress.objList)
    (hprocess : processObject calls (ObjectHeader.ofBytes chunk) input progress =
      .ok (status, rest, after))
    (hlost : after.lost = false) :
    (GoodReference known chunk ∧ rest = input ∧ after = progress) ∨
      (ObjectType.ofCode (ObjectHeader.ofBytes chunk).type = some .file ∧
        ∃ data writes, input = data ++ rest ∧
          FileData calls (calls.creat progress.creats)
            (ObjectHeader.ofBytes chunk).fileSize.toNat progress.writes data writes ∧
          after = { progress with creats := progress.creats + 1, writes := writes }) := by
  rw [processObject] at hprocess
  rw [GoodReference]
  split at hprocess
  · next htype =>
      rw [bind_eq_ok] at hprocess
      obtain ⟨⟨complete, behind, extracted⟩, hextract, hresult⟩ := hprocess
      cases hresult
      rcases extractData_ok hextract with ⟨-, data, writes, hinput, hdata, hafter⟩ | ⟨-, hall, -⟩
      · exact .inr ⟨htype, data, writes, hinput, hdata, hafter⟩
      · rw [hall] at hlost
        cases hlost
  · next htype =>
      rw [bind_eq_ok] at hprocess
      obtain ⟨target, htarget, hresult⟩ := hprocess
      cases hresult
      rw [htype]
      exact .inl ⟨readString_ok_iff.mp ⟨target, htarget⟩, rfl, rfl⟩
  · next htype =>
      cases hprocess
      rw [htype]
      exact .inl ⟨trivial, rfl, rfl⟩
  · next htype =>
      rw [bind_eq_ok] at hprocess
      obtain ⟨old, hold, hresult⟩ := hprocess
      cases hresult
      rw [htype]
      exact .inl ⟨hknown.pathOf_ok_iff.mp ⟨old, hold⟩, rfl, rfl⟩
  · next htype =>
      cases hprocess
      rw [htype]
      exact .inl ⟨trivial, rfl, rfl⟩
  · next htype =>
      cases hprocess
      rw [htype]
      exact .inl ⟨trivial, rfl, rfl⟩
  · next htype =>
      cases hprocess
      rw [htype]
      exact .inl ⟨trivial, rfl, rfl⟩

/-- An object without data is made if what it refers to is there. -/
theorem GoodReference.processObject (hreference : GoodReference known chunk)
    {progress : Progress} (hknown : Known known progress.objList) (calls : Calls)
    (input : Bytes) :
    ∃ status, processObject calls (ObjectHeader.ofBytes chunk) input progress =
      .ok (status, input, progress) := by
  rw [GoodReference] at hreference
  rw [Restore.processObject]
  split at hreference
  · exact hreference.elim
  · next htype =>
      obtain ⟨target, htarget⟩ := readString_ok_iff.mpr hreference
      rw [htype]
      exact ⟨0, bind_eq_of_ok htarget⟩
  · next htype =>
      obtain ⟨old, hold⟩ := hknown.pathOf_ok_iff.mpr hreference
      rw [htype]
      exact ⟨0, bind_eq_of_ok hold⟩
  · next hfile hsymlink hhardlink =>
      cases htype : ObjectType.ofCode (ObjectHeader.ofBytes chunk).type with
      | none => exact ⟨0, rfl⟩
      | some type =>
          cases type with
          | file => exact absurd htype hfile
          | symlink => exact absurd htype hsymlink
          | hardlink => exact absurd htype hhardlink
          | directory => exact ⟨0, rfl⟩
          | special => exact ⟨1, rfl⟩
          | unknown => exact ⟨1, rfl⟩

/-- A file is made if its data are there and can be written. -/
theorem FileData.processObject {progress : Progress} {data : Bytes} {writes : Nat}
    (hdata : FileData calls (calls.creat progress.creats)
      (ObjectHeader.ofBytes chunk).fileSize.toNat progress.writes data writes)
    (hkind : ObjectType.ofCode (ObjectHeader.ofBytes chunk).type = some .file) (rest : Bytes) :
    processObject calls (ObjectHeader.ofBytes chunk) (data ++ rest) progress =
      .ok (0, rest, { progress with creats := progress.creats + 1, writes := writes }) := by
  rw [Restore.processObject, hkind]
  exact bind_eq_of_ok (hdata.extractData rest (Nat.lt_succ_self _)
    { progress with creats := progress.creats + 1 } rfl)

/-- A header that is accepted. -/
theorem processChunk_ok {input rest : Bytes} {status : Int} {progress after : Progress}
    (hknown : Known known progress.objList)
    (hprocess : processChunk calls chunk input progress = .ok (status, rest, after)) :
    ((tagsOf chunk).byteCount ≠ 0xffff ∧ rest = input ∧ after = progress) ∨
      (GoodHeader known chunk ∧ ∃ path,
        processObject calls (ObjectHeader.ofBytes chunk) input
          (progress.addPath (tagsOf chunk).objectId.toNat path) = .ok (status, rest, after)) := by
  rw [processChunk] at hprocess
  dsimp only at hprocess
  rw [← tagsOf] at hprocess
  split at hprocess
  · next hheader =>
      rw [bind_eq_ok] at hprocess
      obtain ⟨name, hname, hprocess⟩ := hprocess
      rw [bind_eq_ok] at hprocess
      obtain ⟨parentPath, hparent, hprocess⟩ := hprocess
      split at hprocess
      · next hobject =>
          exact .inr ⟨⟨hheader, readString_ok_iff.mp ⟨name, hname⟩,
            hknown.pathOf_ok_iff.mp ⟨parentPath, hparent⟩, hobject⟩, _, hprocess⟩
      · cases hprocess
  · next hplain =>
      cases hprocess
      exact .inl ⟨hplain, rfl, rfl⟩

theorem processChunk_skipped (hplain : (tagsOf chunk).byteCount ≠ 0xffff) (input : Bytes)
    (progress : Progress) : processChunk calls chunk input progress = .ok (0, input, progress) :=
  if_neg hplain

theorem GoodHeader.processChunk (hheader : GoodHeader known chunk) {progress : Progress}
    (hknown : Known known progress.objList) (calls : Calls) (input : Bytes) :
    ∃ path, processChunk calls chunk input progress =
      processObject calls (ObjectHeader.ofBytes chunk) input
        (progress.addPath (tagsOf chunk).objectId.toNat path) := by
  obtain ⟨name, hname⟩ := readString_ok_iff.mpr hheader.name
  obtain ⟨parentPath, hparent⟩ := hknown.pathOf_ok_iff.mpr hheader.parent
  refine ⟨parentPath ++ [slash] ++ name, ?_⟩
  rw [Restore.processChunk]
  dsimp only
  rw [← tagsOf, if_pos hheader.header, bind_eq_of_ok hname, bind_eq_of_ok hparent,
    if_pos hheader.objectId]
  rfl

end Objects

section Losses

variable {calls : Calls}

theorem processObject_lost {oh : ObjectHeader} {input rest : Bytes} {status : Int}
    {progress after : Progress}
    (hprocess : processObject calls oh input progress = .ok (status, rest, after))
    (hlost : progress.lost = true) : after.lost = true := by
  rw [processObject] at hprocess
  split at hprocess
  · rw [bind_eq_ok] at hprocess
    obtain ⟨⟨complete, behind, extracted⟩, hextract, hresult⟩ := hprocess
    cases hresult
    exact extractData_lost hextract hlost
  · rw [bind_eq_ok] at hprocess
    obtain ⟨target, -, hresult⟩ := hprocess
    cases hresult
    exact hlost
  · cases hprocess
    exact hlost
  · rw [bind_eq_ok] at hprocess
    obtain ⟨old, -, hresult⟩ := hprocess
    cases hresult
    exact hlost
  · cases hprocess
    exact hlost
  · cases hprocess
    exact hlost
  · cases hprocess
    exact hlost

theorem processChunk_lost {chunk input rest : Bytes} {status : Int} {progress after : Progress}
    (hprocess : processChunk calls chunk input progress = .ok (status, rest, after))
    (hlost : progress.lost = true) : after.lost = true := by
  rw [processChunk] at hprocess
  dsimp only at hprocess
  split at hprocess
  · rw [bind_eq_ok] at hprocess
    obtain ⟨name, -, hprocess⟩ := hprocess
    rw [bind_eq_ok] at hprocess
    obtain ⟨parentPath, -, hprocess⟩ := hprocess
    split at hprocess
    · exact processObject_lost hprocess hlost
    · cases hprocess
  · cases hprocess
    exact hlost

theorem extractLoop_lost {fuel : Nat} {image : Bytes} {progress after : Progress}
    (hextract : extractLoop calls fuel image progress = .ok after)
    (hlost : progress.lost = true) : after.lost = true := by
  induction fuel generalizing image progress with
  | zero => cases hextract
  | succ fuel ih =>
      rw [extractLoop] at hextract
      split at hextract
      · cases hextract
        dsimp only
        rw [hlost, Bool.true_or]
      · rw [bind_eq_ok] at hextract
        obtain ⟨⟨status, rest, processed⟩, hprocess, hextract⟩ := hextract
        exact ih hextract (processChunk_lost hprocess hlost)

end Losses

/-! ## Termination -/

section Termination

variable {calls : Calls}

theorem readString_terminates {count : Nat} (field : List.Vector UInt8 count) :
    readString field ≠ .error .fuel := by
  rw [readString]
  split <;> (intro hnot; cases hnot)

theorem pathOf_terminates (objList : Nat → Option Bytes) (objectId : UInt32) :
    pathOf objList objectId ≠ .error .fuel := by
  rw [pathOf]
  split
  · split <;> (intro hnot; cases hnot)
  · intro hnot
    cases hnot

/-- An object is processed, and what it leaves of the image is no longer than before. -/
theorem processObject_terminates (oh : ObjectHeader) (input : Bytes) (progress : Progress) :
    processObject calls oh input progress ≠ .error .fuel ∧
      ∀ status rest after, processObject calls oh input progress = .ok (status, rest, after) →
        rest.length ≤ input.length := by
  rw [processObject]
  split
  · constructor
    · rw [Ne, bind_eq_error]
      rintro (hextract | ⟨⟨complete, rest, extracted⟩, -, hresult⟩)
      · exact extractData_terminates (Nat.lt_succ_self _) hextract
      · cases hresult
    · intro status rest after hprocess
      rw [bind_eq_ok] at hprocess
      obtain ⟨⟨complete, behind, extracted⟩, hextract, hresult⟩ := hprocess
      cases hresult
      exact extractData_rest hextract
  · constructor
    · rw [Ne, bind_eq_error]
      rintro (htarget | ⟨target, -, hresult⟩)
      · exact readString_terminates _ htarget
      · cases hresult
    · intro status rest after hprocess
      rw [bind_eq_ok] at hprocess
      obtain ⟨target, -, hresult⟩ := hprocess
      cases hresult
      exact le_rfl
  · exact ⟨nofun, fun _ _ _ hprocess => by cases hprocess; exact le_rfl⟩
  · constructor
    · rw [Ne, bind_eq_error]
      rintro (hold | ⟨old, -, hresult⟩)
      · exact pathOf_terminates _ _ hold
      · cases hresult
    · intro status rest after hprocess
      rw [bind_eq_ok] at hprocess
      obtain ⟨old, -, hresult⟩ := hprocess
      cases hresult
      exact le_rfl
  · exact ⟨nofun, fun _ _ _ hprocess => by cases hprocess; exact le_rfl⟩
  · exact ⟨nofun, fun _ _ _ hprocess => by cases hprocess; exact le_rfl⟩
  · exact ⟨nofun, fun _ _ _ hprocess => by cases hprocess; exact le_rfl⟩

theorem processChunk_terminates (chunk input : Bytes) (progress : Progress) :
    processChunk calls chunk input progress ≠ .error .fuel ∧
      ∀ status rest after, processChunk calls chunk input progress = .ok (status, rest, after) →
        rest.length ≤ input.length := by
  rw [processChunk]
  dsimp only
  split
  · constructor
    · rw [Ne, bind_eq_error]
      rintro (hname | ⟨name, -, hprocess⟩)
      · exact readString_terminates _ hname
      · rw [bind_eq_error] at hprocess
        rcases hprocess with hparent | ⟨parentPath, -, hprocess⟩
        · exact pathOf_terminates _ _ hparent
        · split at hprocess
          · exact (processObject_terminates _ _ _).1 hprocess
          · cases hprocess
    · intro status rest after hprocess
      rw [bind_eq_ok] at hprocess
      obtain ⟨name, -, hprocess⟩ := hprocess
      rw [bind_eq_ok] at hprocess
      obtain ⟨parentPath, -, hprocess⟩ := hprocess
      split at hprocess
      · exact (processObject_terminates _ _ _).2 status rest after hprocess
      · cases hprocess
  · exact ⟨nofun, fun _ _ _ hprocess => by cases hprocess; exact le_rfl⟩

theorem extractLoop_terminates {fuel : Nat} {image : Bytes} (hfuel : image.length < fuel)
    (progress : Progress) : extractLoop calls fuel image progress ≠ .error .fuel := by
  induction fuel generalizing image progress with
  | zero => omega
  | succ fuel ih =>
      rw [extractLoop]
      split
      · nofun
      · next chunk behind hread =>
          have hlength := length_of_readChunk hread
          obtain ⟨hprocess, hshorter⟩ := @processChunk_terminates calls chunk behind progress
          rw [Ne, bind_eq_error]
          rintro (hfails | ⟨⟨status, rest, processed⟩, hresult, hextract⟩)
          · exact hprocess hfails
          · have hrest := hshorter status rest processed hresult
            exact ih (by omega) processed hextract

/-- The extraction ends for every image. -/
theorem extract_terminates (calls : Calls) (root image : Bytes) :
    extract calls root image ≠ .error .fuel := by
  rw [extract, Ne, bind_eq_error]
  rintro (hextract | ⟨progress, -, hresult⟩)
  · exact extractLoop_terminates (Nat.lt_succ_self _) _ hextract
  · cases hresult

end Termination

/-! ## Whole images -/

section Runs

variable {calls : Calls}

/-- An image of which nothing is lost is intact. -/
theorem extractLoop_ok {fuel : Nat} {known : List Nat} {image : Bytes} {progress after : Progress}
    (hknown : Known known progress.objList)
    (hextract : extractLoop calls fuel image progress = .ok after) (hlost : after.lost = false) :
    progress.lost = false ∧ Intact calls known progress.creats progress.writes image := by
  induction fuel generalizing known image progress with
  | zero => cases hextract
  | succ fuel ih =>
      rw [extractLoop] at hextract
      split at hextract
      · cases hextract
        dsimp only at hlost
        rw [Bool.or_eq_false_iff] at hlost
        have hnil : image = [] := by simpa using hlost.2
        subst hnil
        exact ⟨hlost.1, .nil⟩
      · next chunk behind hread =>
          obtain ⟨hchunk, rfl⟩ := readChunk_eq_some hread
          rw [bind_eq_ok] at hextract
          obtain ⟨⟨status, rest, processed⟩, hprocess, hextract⟩ := hextract
          dsimp only at hextract
          rcases processChunk_ok hknown hprocess with
            ⟨hplain, rfl, rfl⟩ | ⟨hheader, path, hobject⟩
          · obtain ⟨hbefore, hrest⟩ := ih hknown hextract
            exact ⟨hbefore, .skipped hchunk hplain hrest⟩
          · have hadded := hknown.addPath hheader.objectId path
            have hprocessed : processed.lost = false := by
              by_contra hgone
              rw [extractLoop_lost hextract (Bool.eq_true_of_not_eq_false hgone)] at hlost
              cases hlost
            rcases processObject_ok hadded hobject hprocessed with
              ⟨hreference, rfl, rfl⟩ | ⟨htype, data, writes, rfl, hdata, rfl⟩
            · obtain ⟨hbefore, hrest⟩ := ih hadded hextract
              exact ⟨hbefore, .object hchunk hheader hreference hrest⟩
            · obtain ⟨hbefore, hrest⟩ := @ih _ _ ⟨_, _, writes, _⟩ hadded hextract
              rw [← List.append_assoc]
              exact ⟨hbefore, .file hchunk hheader htype hdata hrest⟩

/-- An intact image is extracted to its end. -/
theorem Intact.extractLoop {known : List Nat} {creats writes : Nat} {image : Bytes}
    (hintact : Intact calls known creats writes image) {fuel : Nat} (hfuel : image.length < fuel)
    {progress : Progress} (hknown : Known known progress.objList)
    (hcreats : progress.creats = creats) (hwrites : progress.writes = writes)
    (hlost : progress.lost = false) :
    ∃ after, extractLoop calls fuel image progress = .ok after ∧ after.lost = false := by
  have hsize : chunkSize = 2048 := rfl
  induction hintact generalizing fuel progress with
  | nil =>
      cases fuel with
      | zero => omega
      | succ fuel => exact ⟨_, rfl, by rw [hlost]; rfl⟩
  | @skipped known creats writes chunk rest hchunk hplain hrest ih =>
      cases fuel with
      | zero => omega
      | succ fuel =>
          rw [List.length_append] at hfuel
          have hshort : rest.length < fuel := by omega
          obtain ⟨after, hafter, hnone⟩ := ih hshort hknown hcreats hwrites hlost
          refine ⟨after, ?_, hnone⟩
          rw [Restore.extractLoop, readChunk_append hchunk]
          exact (bind_eq_of_ok (processChunk_skipped hplain _ _)).trans hafter
  | @object known creats writes chunk rest hchunk hheader hreference hrest ih =>
      cases fuel with
      | zero => omega
      | succ fuel =>
          rw [List.length_append] at hfuel
          have hshort : rest.length < fuel := by omega
          obtain ⟨path, hprocess⟩ := hheader.processChunk hknown calls rest
          have hadded := hknown.addPath hheader.objectId path
          obtain ⟨status, hobject⟩ := hreference.processObject hadded calls rest
          obtain ⟨after, hafter, hnone⟩ := ih hshort hadded hcreats hwrites hlost
          refine ⟨after, ?_, hnone⟩
          rw [Restore.extractLoop, readChunk_append hchunk]
          exact (bind_eq_of_ok (hprocess.trans hobject)).trans hafter
  | @file known creats writes last chunk data rest hchunk hheader hkind hdata hrest ih =>
      cases fuel with
      | zero => omega
      | succ fuel =>
          rw [List.append_assoc, List.length_append, List.length_append] at hfuel
          have hshort : rest.length < fuel := by omega
          obtain ⟨path, hprocess⟩ := hheader.processChunk hknown calls (data ++ rest)
          rw [← hcreats, ← hwrites] at hdata
          have hobject := @FileData.processObject calls chunk
            (progress.addPath (tagsOf chunk).objectId.toNat path) data last hdata hkind rest
          have hadded := hknown.addPath hheader.objectId path
          obtain ⟨after, hafter, hnone⟩ :=
            @ih fuel hshort ⟨_, progress.creats + 1, last, progress.lost⟩ hadded
              (congrArg (· + 1) hcreats) rfl hlost
          refine ⟨after, ?_, hnone⟩
          rw [Restore.extractLoop, List.append_assoc, readChunk_append hchunk]
          exact (bind_eq_of_ok (hprocess.trans hobject)).trans hafter

/-- The extraction ends, without an access outside of a table or a field, and says so if it
has not extracted all. -/
def Survives (calls : Calls) (root image : Bytes) : Prop :=
  ∃ status progress, extract calls root image = .ok (status, progress) ∧
    (progress.lost = true → status ≠ 0)

theorem survives_iff_lost (root image : Bytes) :
    Survives calls root image ↔
      ∃ progress, extractLoop calls (image.length + 1) image (beginProgress root) =
          .ok progress ∧
        progress.lost = false := by
  constructor
  · rintro ⟨status, progress, hextract, hstatus⟩
    rw [extract, bind_eq_ok] at hextract
    obtain ⟨extracted, hloop, hresult⟩ := hextract
    cases hresult
    refine ⟨progress, hloop, ?_⟩
    by_contra hlost
    exact hstatus (Bool.eq_true_of_not_eq_false hlost) rfl
  · rintro ⟨progress, hloop, hlost⟩
    refine ⟨0, progress, bind_eq_of_ok hloop, ?_⟩
    rw [hlost]
    nofun

theorem survives_iff (calls : Calls) (root image : Bytes) :
    Survives calls root image ↔ Intact calls [objectIdRoot] 0 0 image := by
  rw [survives_iff_lost]
  constructor
  · rintro ⟨progress, hloop, hlost⟩
    exact (extractLoop_ok (known_root root) hloop hlost).2
  · intro hintact
    exact hintact.extractLoop (Nat.lt_succ_self _) (known_root root) rfl rfl rfl

end Runs

/-! ## A truncated image -/

section Truncated

theorem goodHeader_writeObjectHeader {known : List Nat} {objId parent : Nat}
    (hobj : objId < maxObjects) (hparent : parent < maxObjects) (hknown : parent ∈ known)
    {name : Bytes} (hname : ∀ byte ∈ name, byte ≠ 0) (hlength : name.length < maxNameLength)
    (leftover : UInt32 → UInt32 → Nat → UInt8) (t : ObjectType) (s : SourceFile)
    (equivalentObj : Int) (aliasName : Bytes) :
    GoodHeader known
      (writeObjectHeader leftover objId t s parent name equivalentObj aliasName) := by
  have htags : tagsOf (writeObjectHeader leftover objId t s parent name equivalentObj aliasName) =
      ⟨lowestSequenceNumber, UInt32.ofNat objId, 0, 0xffff⟩ :=
    tags_writeChunk leftover _ _ _ (ObjectHeader.bytes_length _)
  obtain ⟨-, hparentId, hnameField⟩ :=
    @objectHeader_common t s parent name equivalentObj aliasName
  constructor
  · rw [htags]
  · rw [ofBytes_writeObjectHeader, hnameField]
    exact (cString_strncpy _ (by decide) hname hlength).2
  · rw [ofBytes_writeObjectHeader, hparentId, toNat_ofNat_objId hparent]
    exact hknown
  · rw [htags, toNat_ofNat_objId hobj]
    exact hobj

/-- A file of which no data are there is not reported. -/
theorem processObject_truncated {calls : Calls} {chunk : Bytes} (progress : Progress)
    (hkind : ObjectType.ofCode (ObjectHeader.ofBytes chunk).type = some .file)
    (hsize : (ObjectHeader.ofBytes chunk).fileSize.toNat ≠ 0) :
    processObject calls (ObjectHeader.ofBytes chunk) [] progress =
      .ok (-1, [], { progress with creats := progress.creats + 1, lost := true }) := by
  have hextract : extractData calls (calls.creat progress.creats) (0 + 1)
      (ObjectHeader.ofBytes chunk).fileSize.toNat []
      { progress with creats := progress.creats + 1 } =
        .ok (false, [], { progress with creats := progress.creats + 1, lost := true }) := by
    rw [extractData, if_neg hsize]
    rfl
  rw [processObject, hkind]
  exact bind_eq_of_ok hextract

theorem not_survives_truncated {calls : Calls} {chunk : Bytes}
    (hchunk : chunk.length = chunkSize + spareSize) (hheader : GoodHeader [objectIdRoot] chunk)
    (hkind : ObjectType.ofCode (ObjectHeader.ofBytes chunk).type = some .file)
    (hsize : (ObjectHeader.ofBytes chunk).fileSize.toNat ≠ 0) (root : Bytes) :
    ¬ Survives calls root chunk := by
  rw [survives_iff_lost]
  rintro ⟨progress, hloop, hlost⟩
  obtain ⟨path, hprocess⟩ := hheader.processChunk (known_root root) calls []
  have hread := readChunk_append hchunk []
  rw [List.append_nil] at hread
  rw [extractLoop, hread] at hloop
  dsimp only at hloop
  rw [hprocess, processObject_truncated _ hkind hsize, bind_eq_of_ok rfl] at hloop
  rw [extractLoop_lost hloop rfl] at hlost
  cases hlost

/-- The header of a file of one byte, below the root directory. -/
def headerOnly : Bytes :=
  writeObjectHeader (fun _ _ _ => 0) 257 .file
    { mode := 0o100644, uid := 0, gid := 0, atime := 0, mtime := 0, ctime := 0, rdev := 0,
      data := [1] } objectIdRoot [97] (-1) []

set_option maxRecDepth 2000 in
theorem headerOnly_unreported :
    ¬ Survives ⟨fun _ => true, fun _ => true⟩ [46, 47, 100] headerOnly := by
  apply not_survives_truncated
  · rw [headerOnly, writeObjectHeader, writeChunk_length _ _ _ _ (ObjectHeader.bytes_length _)]
  · rw [headerOnly]
    exact goodHeader_writeObjectHeader (by decide) (by decide) (List.mem_singleton.mpr rfl)
      (by decide) (by decide) _ _ _ _ _
  · rw [headerOnly, ofBytes_writeObjectHeader, ofCode_objectHeader]
  · rw [headerOnly, ofBytes_writeObjectHeader, objectHeader_fileSize]
    decide

end Truncated

end OpenRecovery.Yaffs.Restore
