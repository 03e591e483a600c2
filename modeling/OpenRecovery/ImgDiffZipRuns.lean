import OpenRecovery.ImgDiffZip
import OpenRecovery.ImgDiffChecks
import OpenRecovery.ImgDiffRuns
import Mathlib

/-!
# A patch between two archives

The members of an archive cut it into chunks if they do not overlap.  A member of the
target is patched from the member of the source with its name, and no other member
of the target changes that one if all of them have different names.
-/

namespace OpenRecovery
namespace ImgDiff

open Effects Words

variable {tools : Tools} {lib : Library} {img bytes old new : Bytes} {blocks : Blocks}
variable {uninit : ImageChunk 32}

/-! ## Cutting -/

/-- The members lie one behind the other from `pos` on. -/
def Cuts (size : Nat) : Int → List ZipFileEntry → Prop
  | pos, [] => pos ≤ size
  | pos, entry :: rest =>
      pos ≤ entry.dataOffset ∧ entry.dataOffset < size ∧ 0 ≤ entry.deflateLen ∧
        Cuts size (entry.dataOffset + entry.deflateLen) rest

/-- The entry gives the size of the inflated data. -/
def ZipFileEntry.Exact (lib : Library) (img : Bytes) (entry : ZipFileEntry) : Prop :=
  0 ≤ entry.uncompLen ∧ entry.uncompLen < 2 ^ 31 ∧
    ∀ data used, lib.inflate ((img.drop entry.dataOffset.toNat).take entry.deflateLen.toNat) =
      some (data, used) → (data.length : Int) = entry.uncompLen

/-- An archive whose members do not overlap and have the sizes that its central
directory says. -/
structure WellCut (lib : Library) (img : Bytes) (entries : List ZipFileEntry) : Prop where
  listed : zipEntries img = .done entries
  cuts : Cuts img.length 0 entries
  exact : ∀ entry ∈ entries, entry.Exact lib img

theorem Cuts.le {size : Nat} {pos : Int} {entries : List ZipFileEntry}
    (hcuts : Cuts size pos entries) : pos ≤ size := by
  cases entries with
  | nil => exact hcuts
  | cons entry entries =>
      obtain ⟨hpos, hsize, -⟩ := hcuts
      omega

/-- A chunk as `ReadZip` leaves it in a slot of its array. -/
def ZippedAt (lib : Library) (img : Bytes) (i : Nat) (chunk : ImageChunk 32) : Prop :=
  (chunk.type = chunkNormal ∧ chunk.data = ⟨0, chunk.start.toNat⟩) ∨
    (chunk.type = chunkDeflate ∧ chunk.deflateData = ⟨0, chunk.start.toNat⟩ ∧
      chunk.data = ⟨i + 1, 0⟩ ∧ chunk.len.toNat < 2 ^ 31 ∧ ∃ data used,
        lib.inflate ((img.drop chunk.start.toNat).take chunk.deflateLen.toNat) = some (data, used) ∧
          data.length = chunk.len.toNat)

/-- The names of the deflate chunks. -/
def deflateNames (chunks : List (ImageChunk 32)) : List (Option CString) :=
  (chunks.filter fun chunk => chunk.type = chunkDeflate).map ImageChunk.filename

theorem ofInt_toNat {value : Int} (hlow : 0 ≤ value) (hhigh : value < 2 ^ 32) :
    (BitVec.ofInt 32 value).toNat = value.toNat := by
  rw [BitVec.toNat_ofInt]
  omega

theorem zipNormalChunk_zipped
    {i : Nat} {pos len : Int} (hlow : 0 ≤ pos) (hhigh : pos < 2 ^ 32) :
    ZippedAt lib img i (zipNormalChunk uninit pos len) := by
  refine .inl ⟨rfl, ?_⟩
  have hstart := ofInt_toNat hlow hhigh
  simp [zipNormalChunk, hstart]

theorem inflateEntry_done
    {pos : Int} {entry : ZipFileEntry} (hlen : 0 ≤ entry.deflateLen)
    (hsize : entry.deflateLen < 2 ^ 32) (hdone : inflateEntry tools img pos entry = .done ()) :
    ∃ data used, tools.library.inflate ((img.drop pos.toNat).take entry.deflateLen.toNat) =
      some (data, used) := by
  unfold inflateEntry at hdone
  rw [ofInt_toNat hlen hsize] at hdone
  obtain ⟨input, hinput, hdone⟩ := bind_eq_done.mp hdone
  unfold imgBytes slice at hinput
  split_ifs at hinput with hinside
  injection hinput with hinput
  rw [Int.toNat_natCast] at hinput
  cases hinflate : tools.library.inflate input with
  | none => simp [hinflate] at hdone
  | some found => exact ⟨found.1, found.2, by rw [hinput, hinflate]⟩

theorem zipDeflateChunk_zipped
    {i : Nat} {pos : Int} {entry : ZipFileEntry} (hpos : pos = entry.dataOffset) (hlow : 0 ≤ pos)
    (hhigh : pos < 2 ^ 32) (hlen : 0 ≤ entry.deflateLen) (hsize : entry.deflateLen < 2 ^ 32)
    (hexact : entry.Exact tools.library img) (hdone : inflateEntry tools img pos entry = .done ()) :
    ZippedAt tools.library img i (zipDeflateChunk uninit i pos entry) := by
  obtain ⟨huncomp, huncompSmall, hlength⟩ := hexact
  obtain ⟨data, used, hinflate⟩ := inflateEntry_done hlen hsize hdone
  have hstart := ofInt_toNat hlow hhigh
  have hdeflateLen := ofInt_toNat hlen hsize
  have huncompLen := @ofInt_toNat entry.uncompLen huncomp (by omega)
  have hdata := hlength data used (by rwa [← hpos])
  refine .inr ⟨rfl, ?_, rfl, ?_, data, used, ?_, ?_⟩
  · simp [zipDeflateChunk, hstart]
  · simp only [zipDeflateChunk, huncompLen]
    omega
  · simp only [zipDeflateChunk, hstart, hdeflateLen]
    exact hinflate
  · simp only [zipDeflateChunk, huncompLen]
    omega

theorem tiles_zipNormalChunk
    {size : Nat} {pos next : Int} {rest : List (ImageChunk 32)} (hsize : size < 2 ^ 31)
    (hlow : 0 ≤ pos) (hnext : pos ≤ next) (hhigh : next ≤ size)
    (hrest : Tiles size rest next.toNat) :
    Tiles size (zipNormalChunk uninit pos (next - pos) :: rest) pos.toNat := by
  have hstart := @ofInt_toNat pos hlow (by omega)
  have hlen := @ofInt_toNat (next - pos) (by omega) (by omega)
  have hspan : (zipNormalChunk uninit pos (next - pos)).span = (next - pos).toNat := by
    rw [span_normal rfl]
    exact hlen
  have hend : pos.toNat + (next - pos).toNat = next.toNat := by
    omega
  refine ⟨hstart, ?_, ?_⟩
  · rw [hspan]
    omega
  · rwa [hspan, hend]

theorem tiles_zipDeflateChunk
    {size i : Nat} {pos : Int} {entry : ZipFileEntry} {rest : List (ImageChunk 32)}
    (hsize : size < 2 ^ 31) (hlow : 0 ≤ pos) (hlen : 0 ≤ entry.deflateLen)
    (hhigh : pos + entry.deflateLen ≤ size)
    (hrest : Tiles size rest (pos + entry.deflateLen).toNat) :
    Tiles size (zipDeflateChunk uninit i pos entry :: rest) pos.toNat := by
  have hstart := @ofInt_toNat pos hlow (by omega)
  have hdeflateLen := @ofInt_toNat entry.deflateLen hlen (by omega)
  have hspan : (zipDeflateChunk uninit i pos entry).span = entry.deflateLen.toNat := by
    rw [span_deflate rfl]
    exact hdeflateLen
  have hend : pos.toNat + entry.deflateLen.toNat = (pos + entry.deflateLen).toNat := by
    omega
  refine ⟨hstart, ?_, ?_⟩
  · rw [hspan]
    omega
  · rwa [hspan, hend]

/-- What a cut of the file from some place on is. -/
structure CutAt (tools : Tools) (img : Bytes) (i : Nat) (pos : Int)
    (entries : List ZipFileEntry) (chunks : List (ImageChunk 32)) : Prop where
  tiles : Tiles img.length chunks pos.toNat
  zipped : ∀ k (hk : k < chunks.length), ZippedAt tools.library img (i + k) chunks[k]
  names : deflateNames chunks = entries.map fun entry => some entry.filename

theorem CutAt.cons
    {i : Nat} {pos next : Int} {entries later : List ZipFileEntry} {chunk : ImageChunk 32}
    {chunks : List (ImageChunk 32)} (hcut : CutAt tools img (i + 1) next later chunks)
    (htiles : Tiles img.length chunks next.toNat → Tiles img.length (chunk :: chunks) pos.toNat)
    (hzipped : ZippedAt tools.library img i chunk)
    (hnames : deflateNames [chunk] ++ later.map (fun entry => some entry.filename) =
      entries.map fun entry => some entry.filename) :
    CutAt tools img i pos entries (chunk :: chunks) := by
  constructor
  · exact htiles hcut.tiles
  · intro k hk
    cases k with
    | zero => exact hzipped
    | succ k =>
        have htail := hcut.zipped k (by simpa using hk)
        rwa [Nat.add_assoc, Nat.add_comm 1 k] at htail
  · rw [← hnames, ← hcut.names]
    unfold deflateNames
    rw [← List.map_append, ← List.filter_append]
    rfl

theorem cutZip_done
    {fuel i : Nat} {pos : Int} {entries : List ZipFileEntry} {chunks : List (ImageChunk 32)}
    (hsize : img.length < 2 ^ 31) (hlow : 0 ≤ pos) (hcuts : Cuts img.length pos entries)
    (hexact : ∀ entry ∈ entries, entry.Exact tools.library img)
    (hdone : cutZip tools img uninit fuel i pos entries = .done chunks) :
    CutAt tools img i pos entries chunks := by
  induction fuel generalizing i pos entries chunks with
  | zero => cases hdone
  | succ fuel ih =>
      have hle := hcuts.le
      unfold cutZip at hdone
      split_ifs at hdone with hend
      · injection hdone with hdone
        subst hdone
        have hpos : pos.toNat = img.length := by
          omega
        cases entries with
        | nil =>
            constructor
            · exact hpos
            · intro k hk
              simp at hk
            · rfl
        | cons entry entries =>
            obtain ⟨hfirst, hsecond, -⟩ := hcuts
            omega
      · cases entries with
        | nil =>
            have hwrap : wrap32 (pos + (img.length - pos)) = img.length := by
              rw [wrap32_of_range (by omega) (by omega)]
              omega
            obtain ⟨rest, hrest, hdone⟩ := bind_eq_done.mp hdone
            injection hdone with hdone
            subst hdone
            rw [hwrap] at hrest
            have hcut := @ih (i + 1) (img.length : Int) [] rest (by omega) (Int.le_refl _) hexact hrest
            refine hcut.cons ?_ (zipNormalChunk_zipped hlow (by omega)) rfl
            exact tiles_zipNormalChunk hsize hlow hle (Int.le_refl _)
        | cons entry later =>
            obtain ⟨hoffset, hinside, hlen, hlater⟩ := hcuts
            have hlaterLe := hlater.le
            dsimp only at hdone
            split_ifs at hdone with hmember
            · have hwrap : wrap32 (pos + entry.deflateLen) = pos + entry.deflateLen := by
                apply wrap32_of_range <;> omega
              obtain ⟨inflated, hinflate, hdone⟩ := bind_eq_done.mp hdone
              obtain ⟨rest, hrest, hdone⟩ := bind_eq_done.mp hdone
              injection hdone with hdone
              subst hdone
              rw [hwrap] at hrest
              rw [← hmember] at hlater
              have hcut := @ih (i + 1) (pos + entry.deflateLen) later rest (by omega) hlater
                (fun other hother => hexact other (List.mem_cons_of_mem _ hother)) hrest
              refine hcut.cons ?_ ?_ rfl
              · exact tiles_zipDeflateChunk hsize hlow hlen (by omega)
              · exact zipDeflateChunk_zipped hmember hlow (by omega) hlen (by omega)
                  (hexact entry List.mem_cons_self) hinflate
            · have hwrap : wrap32 (pos + (entry.dataOffset - pos)) = entry.dataOffset := by
                rw [wrap32_of_range (by omega) (by omega)]
                omega
              obtain ⟨rest, hrest, hdone⟩ := bind_eq_done.mp hdone
              injection hdone with hdone
              subst hdone
              rw [hwrap] at hrest
              have hcut := @ih (i + 1) entry.dataOffset (entry :: later) rest (by omega)
                ⟨Int.le_refl _, hinside, hlen, hlater⟩ hexact hrest
              refine hcut.cons ?_ (zipNormalChunk_zipped hlow (by omega)) rfl
              exact tiles_zipNormalChunk hsize hlow hoffset (by omega)

theorem zipBlocks_sound
    {chunks : List (ImageChunk 32)}
    (hzipped : ∀ k (hk : k < chunks.length), ZippedAt tools.library img k chunks[k])
    (hfits : ∀ chunk ∈ chunks, chunk.start.toNat + chunk.span ≤ img.length) :
    ∀ chunk ∈ chunks, Sound tools.library img (zipBlocks tools img chunks) chunk := by
  intro chunk hchunk
  have hchunkFits := hfits chunk hchunk
  obtain ⟨i, hi, rfl⟩ := List.getElem_of_mem hchunk
  rcases hzipped i hi with ⟨htype, hdata⟩ |
    ⟨htype, hdeflateData, hdata, hsmall, data, used, hinflate, hlen⟩
  · rw [span_normal htype] at hchunkFits
    exact .normal htype hdata hchunkFits
  · rw [span_deflate htype] at hchunkFits
    have hblock : zipBlocks tools img chunks chunks[i].data.block = data := by
      have hslot : (slot chunks i).type = chunkDeflate := by
        rwa [slot_eq hi]
      rw [hdata]
      apply blocksOf_deflate hslot
      rw [slot_eq hi]
      exact hinflate
    refine .deflate htype hdeflateData ?_ hchunkFits used ?_ ?_ hsmall
    · rw [hdata]
    · rw [hblock]
      exact hinflate
    · rw [hblock]
      exact hlen

/-- An archive on the side of the target. -/
theorem readZip_target
    {entries : List ZipFileEntry} {chunks : List (ImageChunk 32)} (hsize : img.length < 2 ^ 31)
    (hwell : WellCut tools.library img entries)
    (hdone : readZip tools img uninit false = .done chunks) :
    Tiles img.length chunks 0 ∧
      (∀ chunk ∈ chunks, Sound tools.library img (zipBlocks tools img chunks) chunk) ∧
      deflateNames chunks = entries.map fun entry => some entry.filename := by
  unfold readZip at hdone
  rw [hwell.listed, done_bind, if_neg (by simp)] at hdone
  have hcut := cutZip_done hsize (Int.le_refl 0) hwell.cuts hwell.exact hdone
  refine ⟨hcut.tiles, ?_, hcut.names⟩
  apply zipBlocks_sound
  · intro k hk
    have hzipped := hcut.zipped k hk
    rwa [Nat.zero_add] at hzipped
  · intro chunk hchunk
    exact tiles_fits hcut.tiles hchunk

/-- An archive on the side of the source: its first chunk is the whole file. -/
theorem readZip_source
    {entries : List ZipFileEntry} {chunks : List (ImageChunk 32)} (hsize : img.length < 2 ^ 31)
    (hwell : WellCut tools.library img entries)
    (hdone : readZip tools img uninit true = .done chunks) :
    (∀ chunk ∈ chunks, Sound tools.library img (zipBlocks tools img chunks) chunk) ∧
      chunks.head? = some (zipNormalChunk uninit 0 img.length) := by
  unfold readZip at hdone
  rw [hwell.listed, done_bind, if_pos rfl] at hdone
  obtain ⟨rest, hrest, hdone⟩ := bind_eq_done.mp hdone
  injection hdone with hdone
  subst hdone
  have hcut := cutZip_done hsize (Int.le_refl 0) hwell.cuts hwell.exact hrest
  have hwhole := @tiles_zipNormalChunk uninit img.length 0 img.length [] hsize (Int.le_refl 0)
    (by omega) (Int.le_refl _) (by simp [Tiles])
  rw [Int.sub_zero] at hwhole
  refine ⟨?_, rfl⟩
  apply zipBlocks_sound
  · intro k hk
    cases k with
    | zero => exact zipNormalChunk_zipped (Int.le_refl 0) (by omega)
    | succ k =>
        have hzipped := hcut.zipped k (by simpa using hk)
        rwa [Nat.add_comm] at hzipped
  · intro chunk hchunk
    cases List.mem_cons.mp hchunk with
    | inl heq =>
        rw [heq]
        exact tiles_fits hwhole List.mem_cons_self
    | inr hlater => exact tiles_fits hcut.tiles hlater

/-! ## Finding a chunk by its name -/

theorem findChunkByName_some
    {name : CString} {chunks : List (ImageChunk 32)} {j : Nat}
    (hfound : findChunkByName name chunks = some j) :
    j < chunks.length ∧ (slot chunks j).type = chunkDeflate ∧
      (slot chunks j).filename = some name := by
  obtain ⟨hj, hchunk, -⟩ := List.findIdx?_eq_some_iff_getElem.mp hfound
  rw [slot_eq hj]
  simp only [decide_eq_true_eq] at hchunk
  exact ⟨hj, hchunk⟩

/-- Changing a chunk of another name does not change what is found. -/
theorem findChunkByName_modify
    {name other : CString} {chunks : List (ImageChunk 32)} {j : Nat} (hname : name ≠ other)
    (hfound : findChunkByName other chunks = some j) :
    findChunkByName name (chunks.modify j changeDeflateChunkToNormal) =
      findChunkByName name chunks := by
  obtain ⟨hj, htype, hfilename⟩ := findChunkByName_some hfound
  rw [slot_eq hj] at htype hfilename
  obtain ⟨matching, hmatching⟩ : ∃ matching : ImageChunk 32 → Bool, matching = fun chunk =>
      decide (chunk.type = chunkDeflate ∧ chunk.filename = some name) := ⟨_, rfl⟩
  have hmap : (chunks.modify j changeDeflateChunkToNormal).map matching = chunks.map matching := by
    apply List.ext_getElem?
    intro k
    rw [List.getElem?_map, List.getElem?_map, List.getElem?_modify]
    by_cases hk : j = k
    · subst hk
      rw [List.getElem?_eq_getElem hj]
      have hbefore : matching chunks[j] = false := by
        simp [hmatching, hfilename, hname.symm]
      have hafter : matching (changeDeflateChunkToNormal chunks[j]) = false := by
        simp [hmatching, changeDeflateChunkToNormal_type htype, chunkNormal_ne_deflate]
      simp [hbefore, hafter]
    · simp [hk]
  have hfind : ∀ list : List (ImageChunk 32),
      findChunkByName name list = (list.map matching).findIdx? id := by
    intro list
    rw [List.findIdx?_map, hmatching]
    rfl
  rw [hfind, hfind, hmap]

theorem changeSource_sound
    {sources : List (ImageChunk 32)} (source : Option Nat)
    (hsound : ∀ chunk ∈ sources, Sound lib bytes blocks chunk) :
    ∀ chunk ∈ changeSource sources source, Sound lib bytes blocks chunk := by
  cases source with
  | none => exact hsound
  | some j =>
      intro chunk hchunk
      rw [changeSource] at hchunk
      obtain ⟨k, hk, rfl⟩ := List.getElem_of_mem hchunk
      rw [List.getElem_modify]
      rw [List.length_modify] at hk
      split_ifs
      · exact (hsound _ (List.getElem_mem hk)).changed
      · exact hsound _ (List.getElem_mem hk)

/-- A normal chunk in front stays there. -/
theorem changeSource_head
    {sources : List (ImageChunk 32)} {first : ImageChunk 32} (source : Option Nat)
    (hhead : sources.head? = some first) (htype : first.type = chunkNormal) :
    (changeSource sources source).head? = some first := by
  cases source with
  | none => exact hhead
  | some j =>
      cases sources with
      | nil => simp at hhead
      | cons other rest =>
          obtain rfl : other = first := by
            simpa using hhead
          cases j with
          | zero => simp [changeSource, changeDeflateChunkToNormal_normal htype]
          | succ j => simp [changeSource]

/-! ## Checking the members -/

variable {srcBlocks tgtBlocks : Blocks}

/-- The chunks of the target can be made from those of the source; `first` is the
whole source. -/
structure Matched (lib : Library) (old new : Bytes) (srcBlocks tgtBlocks : Blocks)
    (first : ImageChunk 32) (sources targets : List (ImageChunk 32)) : Prop where
  head : sources.head? = some first
  soundSources : ∀ chunk ∈ sources, Sound lib old srcBlocks chunk
  soundTargets : ∀ chunk ∈ targets, Sound lib new tgtBlocks chunk
  recompresses : ∀ chunk ∈ targets, chunk.type = chunkDeflate →
    Recompresses lib new tgtBlocks chunk
  found : ∀ chunk ∈ targets, chunk.type = chunkDeflate → ∃ name j,
    chunk.filename = some name ∧ findChunkByName name sources = some j

/-- One chunk is checked.  Only what its own name finds may change. -/
theorem checkChunk_matched
    {sources sources' : List (ImageChunk 32)} {i : Nat} {first target target' : ImageChunk 32}
    (hholds : Holds tgtBlocks new) (hhead : sources.head? = some first)
    (hfirst : first.type = chunkNormal)
    (hsources : ∀ chunk ∈ sources, Sound tools.library old srcBlocks chunk)
    (htarget : Sound tools.library new tgtBlocks target)
    (hdone : checkChunk tools .zip srcBlocks tgtBlocks sources i target =
      .done (target', sources')) :
    sources'.head? = some first ∧
      (∀ chunk ∈ sources', Sound tools.library old srcBlocks chunk) ∧
      Sound tools.library new tgtBlocks target' ∧ target'.extent = target.extent ∧
      (∀ name, some name ∉ deflateNames [target] →
        findChunkByName name sources' = findChunkByName name sources) ∧
      (target'.type = chunkDeflate → Recompresses tools.library new tgtBlocks target' ∧
        target.type = chunkDeflate ∧ ∃ name j, target'.filename = some name ∧
          target.filename = some name ∧ findChunkByName name sources' = some j) := by
  rcases checkChunk_cases hholds htarget hdone with ⟨hnormal, htarget', hsources'⟩ |
    ⟨params, source, hdeflate, hsource, hcases⟩
  · subst htarget' hsources'
    refine ⟨hhead, hsources, htarget, rfl, fun name hname => rfl, ?_⟩
    intro hdeflate
    exact absurd (hnormal.symm.trans hdeflate) chunkNormal_ne_deflate
  · have hparams : (target.withParams params).type = chunkDeflate := hdeflate
    have hfilename : (target.withParams params).filename = target.filename := rfl
    cases hname : target.filename with
    | none => simp [Mode.sourceOf, hfilename, hname] at hsource
    | some own =>
        have hsource' : findChunkByName own sources = source := by
          simpa [Mode.sourceOf, hfilename, hname] using hsource
        rcases hcases with ⟨htarget', hsources'⟩ | ⟨htarget', hrecompresses, hsources', j, hj⟩
        · subst htarget' hsources'
          refine ⟨changeSource_head source hhead hfirst, changeSource_sound source hsources,
            (htarget.withParams params).changed, changeDeflateChunkToNormal_extent _, ?_, ?_⟩
          · intro name hother
            have hne : name ≠ own := by
              simpa [deflateNames, hdeflate, hname] using hother
            cases source with
            | none => rfl
            | some j => exact findChunkByName_modify hne hsource'
          · intro hstill
            rw [changeDeflateChunkToNormal_type hparams] at hstill
            exact absurd hstill chunkNormal_ne_deflate
        · subst htarget' hsources'
          refine ⟨hhead, hsources, htarget.withParams params, rfl, fun name hother => rfl, ?_⟩
          intro _
          exact ⟨hrecompresses, hdeflate, own, j, hname, rfl, hsource'.trans hj⟩

theorem checkChunks_matched
    {sources sources' targets targets' : List (ImageChunk 32)} {i : Nat} {first : ImageChunk 32}
    (hholds : Holds tgtBlocks new) (hhead : sources.head? = some first)
    (hfirst : first.type = chunkNormal)
    (hsources : ∀ chunk ∈ sources, Sound tools.library old srcBlocks chunk)
    (htargets : ∀ chunk ∈ targets, Sound tools.library new tgtBlocks chunk)
    (hnames : (deflateNames targets).Nodup)
    (hdone : checkChunks tools .zip srcBlocks tgtBlocks i targets sources =
      .done (targets', sources')) :
    Matched tools.library old new srcBlocks tgtBlocks first sources' targets' ∧
      targets'.map ImageChunk.extent = targets.map ImageChunk.extent ∧
      ∀ name, some name ∉ deflateNames targets →
        findChunkByName name sources' = findChunkByName name sources := by
  induction targets generalizing i sources sources' targets' with
  | nil =>
      simp only [checkChunks, Outcome.done.injEq, Prod.mk.injEq] at hdone
      obtain ⟨rfl, rfl⟩ := hdone
      refine ⟨⟨hhead, hsources, ?_, ?_, ?_⟩, rfl, fun name hname => rfl⟩
      all_goals simp
  | cons target targets ih =>
      have hsplit : deflateNames (target :: targets) =
          deflateNames [target] ++ deflateNames targets := by
        unfold deflateNames
        rw [← List.map_append, ← List.filter_append, List.singleton_append]
      rw [hsplit] at hnames
      obtain ⟨-, hnamesRest, hapart⟩ := List.nodup_append.mp hnames
      unfold checkChunks at hdone
      obtain ⟨⟨target', middle⟩, hcheck, hdone⟩ := bind_eq_done.mp hdone
      obtain ⟨⟨rest, last⟩, hrest, hdone⟩ := bind_eq_done.mp hdone
      simp only [Outcome.done.injEq, Prod.mk.injEq] at hdone
      obtain ⟨rfl, rfl⟩ := hdone
      obtain ⟨hhead', hmiddle, htarget', hextent, hothers, hdeflate⟩ := checkChunk_matched hholds
        hhead hfirst hsources (htargets target List.mem_cons_self) hcheck
      obtain ⟨hmatched, hextents, hothers'⟩ := ih hhead' hmiddle
        (fun chunk hchunk => htargets chunk (List.mem_cons_of_mem _ hchunk)) hnamesRest hrest
      refine ⟨⟨hmatched.head, hmatched.soundSources, ?_, ?_, ?_⟩, ?_, ?_⟩
      · intro chunk hchunk
        cases List.mem_cons.mp hchunk with
        | inl heq => rwa [heq]
        | inr hlater => exact hmatched.soundTargets chunk hlater
      · intro chunk hchunk htype
        cases List.mem_cons.mp hchunk with
        | inl heq =>
            rw [heq] at htype ⊢
            exact (hdeflate htype).1
        | inr hlater => exact hmatched.recompresses chunk hlater htype
      · intro chunk hchunk htype
        cases List.mem_cons.mp hchunk with
        | inl heq =>
            rw [heq] at htype ⊢
            obtain ⟨-, htargetType, name, j, hname, htargetName, hfound⟩ := hdeflate htype
            have hown : some name ∈ deflateNames [target] := by
              simp [deflateNames, htargetType, htargetName]
            have hlater : some name ∉ deflateNames targets := by
              intro hmem
              exact hapart _ hown _ hmem rfl
            exact ⟨name, j, hname, (hothers' name hlater).trans hfound⟩
        | inr hlater => exact hmatched.found chunk hlater htype
      · simp [hextent, hextents]
      · intro name hname
        rw [hsplit, List.mem_append, not_or] at hname
        exact (hothers' name hname.2).trans (hothers name hname.1)

theorem Matched.merged
    {sources targets : List (ImageChunk 32)} {first : ImageChunk 32}
    (hmatched : Matched lib old new srcBlocks tgtBlocks first sources targets)
    (hnew : new.length < 2 ^ 32) (htiles : Tiles new.length targets 0) :
    Matched lib old new srcBlocks tgtBlocks first sources (mergedChunks targets) ∧
      Tiles new.length (mergedChunks targets) 0 := by
  obtain ⟨htargets, htiles'⟩ := mergedChunks_tiles hnew hmatched.soundTargets htiles
  refine ⟨⟨hmatched.head, hmatched.soundSources, htargets, ?_, ?_⟩, htiles'⟩
  · intro chunk hchunk htype
    exact hmatched.recompresses chunk (mergedChunks_deflate hchunk htype) htype
  · intro chunk hchunk htype
    exact hmatched.found chunk (mergedChunks_deflate hchunk htype) htype

/-! ## The patches -/

theorem makePatches_matched
    {sources targets : List (ImageChunk 32)} {i : Nat} {first : ImageChunk 32}
    {patches : List (ImageChunk 32 × Bytes)} (hreliable : tools.Reliable)
    (hsrcHolds : Holds srcBlocks old) (htgtHolds : Holds tgtBlocks new)
    (hold : old.length < 2 ^ 31) (hnew : new.length < 2 ^ 31) (hfirst : first.type = chunkNormal)
    (hmatched : Matched tools.library old new srcBlocks tgtBlocks first sources targets)
    (hdone : makePatches tools .zip srcBlocks tgtBlocks sources i targets = .done patches) :
    List.Forall₂ (Produces tools.library old) patches
      (targets.map fun chunk => chunk.bytesOf new) := by
  induction targets generalizing i patches with
  | nil =>
      simp only [makePatches, Outcome.done.injEq] at hdone
      subst hdone
      simp
  | cons target targets ih =>
      unfold makePatches at hdone
      obtain ⟨source, hsource, hdone⟩ := bind_eq_done.mp hdone
      obtain ⟨patched, hmake, hdone⟩ := bind_eq_done.mp hdone
      obtain ⟨rest, hrest, hdone⟩ := bind_eq_done.mp hdone
      injection hdone with hdone
      subst hdone
      have hmatched' : Matched tools.library old new srcBlocks tgtBlocks first sources targets := by
        refine ⟨hmatched.head, hmatched.soundSources, ?_, ?_, ?_⟩
        · exact fun chunk hchunk => hmatched.soundTargets chunk (List.mem_cons_of_mem _ hchunk)
        · exact fun chunk hchunk => hmatched.recompresses chunk (List.mem_cons_of_mem _ hchunk)
        · exact fun chunk hchunk => hmatched.found chunk (List.mem_cons_of_mem _ hchunk)
      refine .cons ?_ (ih hmatched' hrest)
      have htarget := hmatched.soundTargets target List.mem_cons_self
      unfold Mode.patchSource at hsource
      dsimp only at hsource
      cases htarget.type_cases with
      | inl hnormal =>
          have hother : target.type ≠ chunkDeflate := by
            rw [hnormal]
            exact chunkNormal_ne_deflate
          rw [if_pos hother] at hsource
          injection hsource with hsource
          have hslot : slot sources 0 = first := by
            rw [slot, List.getD_eq_getElem?_getD, ← List.head?_eq_getElem?, hmatched.head]
            rfl
          rw [hslot] at hsource
          subst hsource
          exact makePatch_normal hreliable hsrcHolds htgtHolds hold hnew
            (hmatched.soundSources _ (List.mem_of_head? hmatched.head)) htarget hfirst hnormal hmake
      | inr hdeflate =>
          obtain ⟨name, j, hname, hfound⟩ := hmatched.found target List.mem_cons_self hdeflate
          rw [if_neg (not_not.mpr hdeflate)] at hsource
          simp only [hname, hfound, Outcome.done.injEq] at hsource
          obtain ⟨hj, htype, -⟩ := findChunkByName_some hfound
          rw [slot_eq hj] at hsource htype
          subst hsource
          exact makePatch_deflate hreliable (hmatched.soundSources _ (List.getElem_mem hj)) htarget
            htype hdeflate (hmatched.recompresses target List.mem_cons_self hdeflate) hmake

/-- A patch between two archives makes the target out of the source, if their members
do not overlap and have the sizes that are given for them, and if those of the target
have different names. -/
theorem imgdiffZip_applyImagePatch
    {σ : Type} (handle : (op : SysOp) → σ → op.Reply × σ) (state : σ) (tools : Tools)
    (uninit : ImageChunk 32) (source target patch : Bytes)
    (srcEntries tgtEntries : List ZipFileEntry) (hreliable : tools.Reliable)
    (hsrc : WellCut tools.library source srcEntries) (htgt : WellCut tools.library target tgtEntries)
    (hnames : (tgtEntries.map ZipFileEntry.filename).Nodup)
    (hsource : source.length < 2 ^ 31) (htarget : target.length < 2 ^ 31)
    (hdone : imgdiffZip tools uninit source target = .done patch) (hpatch : patch.length < 2 ^ 31) :
    imageOutput tools.library patch source = some target ∧
      ((applyImagePatch tools.library (memorySink target.length) patch source ⟨[], []⟩).run
        handle state).1 = .ok (0, ⟨target, target⟩) := by
  unfold imgdiffZip at hdone
  obtain ⟨srcRead, hsrcRead, hdone⟩ := bind_eq_done.mp hdone
  obtain ⟨tgtRead, htgtRead, hdone⟩ := bind_eq_done.mp hdone
  dsimp only at hdone
  obtain ⟨⟨targets, sources⟩, hcheck, hdone⟩ := bind_eq_done.mp hdone
  obtain ⟨patches, hpatches, hdone⟩ := bind_eq_done.mp hdone
  injection hdone with hdone
  subst hdone
  obtain ⟨hsrcSound, hhead⟩ := readZip_source hsource hsrc hsrcRead
  obtain ⟨htiles, htgtSound, htgtNames⟩ := readZip_target htarget htgt htgtRead
  have hsrcHolds : Holds (zipBlocks tools source srcRead) source := List.prefix_refl _
  have htgtHolds : Holds (zipBlocks tools target tgtRead) target := List.prefix_refl _
  have hdistinct : (deflateNames tgtRead).Nodup := by
    rw [htgtNames]
    have hmap := hnames.map (Option.some_injective CString)
    rwa [List.map_map] at hmap
  obtain ⟨hmatched, hextents, -⟩ := checkChunks_matched htgtHolds hhead rfl hsrcSound htgtSound
    hdistinct hcheck
  obtain ⟨hmerged, htiles'⟩ := hmatched.merged (by omega) (tiles_congr hextents htiles)
  have hproduces := makePatches_matched hreliable hsrcHolds htgtHolds hsource htarget rfl hmerged
    hpatches
  have houtput := imageOutput_patchFile hproduces hreliable.allocates hsource hpatch
  rw [tiles_bytes htiles', List.drop_zero] at houtput
  exact ⟨houtput, applyImagePatch_memorySink houtput state⟩

/-- An archive with one member, which is an empty file. -/
def sampleArchive (data : Bytes) : Bytes :=
  ([0x50, 0x4b, 0x03, 0x04, 20, 0, 0, 0, 8, 0] ++ leBytes 8 0 ++ leBytes 4 data.length ++
    leBytes 4 0 ++ leBytes 2 1 ++ leBytes 2 0 ++ [97]) ++ data ++
  ([0x50, 0x4b, 0x01, 0x02, 20, 0, 20, 0, 0, 0, 8, 0] ++ leBytes 8 0 ++ leBytes 4 data.length ++
    leBytes 4 0 ++ leBytes 2 1 ++ leBytes 16 0 ++ [97]) ++
  ([0x50, 0x4b, 0x05, 0x06] ++ leBytes 4 0 ++ leBytes 2 1 ++ leBytes 2 1 ++ leBytes 4 47 ++
    leBytes 4 (31 + data.length) ++ leBytes 2 0)

def sampleEntry (deflateLen : Int) : ZipFileEntry where
  dataOffset := 31
  deflateLen := deflateLen
  uncompLen := 0
  filename := ['a']

theorem sampleEntry_exact (data : Bytes) (deflateLen : Int) :
    (sampleEntry deflateLen).Exact sampleTools.library data := by
  have hsmall : (0 : Int) < 2 ^ 31 := by decide
  refine ⟨Int.le_refl 0, hsmall, ?_⟩
  intro inflated used hinflate
  obtain ⟨found, -, hboth⟩ := Option.map_eq_some_iff.mp hinflate
  simp only [Prod.mk.injEq] at hboth
  rw [← hboth.1]
  rfl

def sampleZipPatch : Bytes :=
  match imgdiffZip sampleTools default (sampleArchive [1, 0, 0, 255, 255])
    (sampleArchive [3, 0]) with
  | .done patch => patch
  | _ => []

theorem imgdiffZip_applyImagePatch_sample :
    imageOutput sampleTools.library sampleZipPatch (sampleArchive [1, 0, 0, 255, 255]) =
        some (sampleArchive [3, 0]) ∧
      ((applyImagePatch sampleTools.library (memorySink (sampleArchive [3, 0]).length)
        sampleZipPatch (sampleArchive [1, 0, 0, 255, 255]) ⟨[], []⟩).run (World.handle sampleEnv)
          ⟨fun _ => none, fun _ => none, [], []⟩).1 =
        .ok (0, ⟨sampleArchive [3, 0], sampleArchive [3, 0]⟩) := by
  refine imgdiffZip_applyImagePatch (World.handle sampleEnv) _ sampleTools default
    (sampleArchive [1, 0, 0, 255, 255]) (sampleArchive [3, 0]) sampleZipPatch [sampleEntry 5]
    [sampleEntry 2] sampleTools_reliable ⟨?_, ?_, ?_⟩ ⟨?_, ?_, ?_⟩ ?_ ?_ ?_ ?_ ?_
  · decide +kernel
  · simp [Cuts, sampleEntry, sampleArchive]
  · intro entry hentry
    rw [List.mem_singleton.mp hentry]
    exact sampleEntry_exact _ _
  · decide +kernel
  · simp [Cuts, sampleEntry, sampleArchive]
  · intro entry hentry
    rw [List.mem_singleton.mp hentry]
    exact sampleEntry_exact _ _
  all_goals decide +kernel

end ImgDiff
end OpenRecovery
