import OpenRecovery.ApplyPatchCheck
import Mathlib

/-!
# Loading a partition of unknown length

`LoadMTDContents` reads a partition up to each of the listed sizes, in
increasing order, and stops at the first prefix that has the listed hash.  The
context that it hashes with always holds the bytes read so far, and they are a
prefix of what the partition delivers.
-/

namespace OpenRecovery

open Effects Mtd

section Search

variable (sha : Bytes → Digest) (content : Bytes)

/-- The search of `LoadMTDContents` in what a partition delivers, of which `got`
bytes were read. -/
def searchPrefixes : (got : Nat) → List (Nat × Option CString) → Except Stuck (Option Bytes)
  | _, [] => .ok none
  | got, (size, sha1sum) :: rest =>
      if 2 ^ 31 ≤ size - got ∨ content.length < size then
        .ok none
      else
        match sha1sum with
        | none => .error .outOfBounds
        | some str =>
            match parseSha1 str with
            | none => .ok none
            | some digest =>
                if sha (content.take size) = digest then .ok (some (content.take size))
                else searchPrefixes size rest

end Search

section Reading

variable {env : Env} {sha : Bytes → Digest} {world : World} {name : CString}
variable {partition : MtdPartition} {flash : Flash partition}

theorem readNext_run
    {ctx : MtdReadContext} (hflash : world.partitions name = some ⟨partition, flash⟩)
    (hvalid : ctx.Valid partition) (next : Nat) :
    ∃ got ctx', (readNext name partition ctx next).run (World.handle env) world =
        ((got, ctx'), world) ∧
      if next < 2 ^ 31 ∧ next ≤ (ctx.remaining flash).length then
        got = some ((ctx.remaining flash).take next) ∧ ctx'.Valid partition ∧
          ctx'.remaining flash = (ctx.remaining flash).drop next
      else
        ∀ bytes, got = some bytes → bytes.length ≠ next := by
  unfold readNext
  split_ifs with hmore hfits hfits
  · obtain ⟨ctx', hrun, hctx⟩ := mtdReadData_run flash hvalid hfits.1
    rw [if_pos hfits.2] at hrun
    refine ⟨_, ctx', ?_, rfl, hctx hfits.2⟩
    rw [onPartition_run env _ hflash, hrun, World.setFlash_eq_self hflash]
  · by_cases hsmall : next < 2 ^ 31
    · obtain ⟨ctx', hrun, -⟩ := mtdReadData_run flash hvalid hsmall
      rw [if_neg fun h => hfits ⟨hsmall, h⟩] at hrun
      refine ⟨none, ctx', ?_, by simp⟩
      rw [onPartition_run env _ hflash, hrun, World.setFlash_eq_self hflash]
    · refine ⟨some [], ctx, ?_, ?_⟩
      · rw [onPartition_run env _ hflash, mtdReadData, if_pos (by omega)]
        simp [World.setFlash_eq_self hflash]
      · intro bytes hbytes
        have hempty : [] = bytes := Option.some.inj hbytes
        rw [← hempty, List.length_nil]
        omega
  · have hzero : next = 0 := by omega
    subst hzero
    exact ⟨some [], ctx, rfl, by simp, hvalid, by simp⟩
  · have hzero : next = 0 := by omega
    subst hzero
    exact absurd ⟨by norm_num, Nat.zero_le _⟩ hfits

/-- The loop of `LoadMTDContents` makes the search in what the partition
delivers. -/
theorem loadPairs_exec
    {pairs : List (Nat × Option CString)} {ctx : MtdReadContext} {content data : Bytes}
    (hflash : world.partitions name = some ⟨partition, flash⟩) (hvalid : ctx.Valid partition)
    (hsorted : pairs.Pairwise fun first second => first.1 ≤ second.1)
    (hdata : data = content.take data.length)
    (hremaining : ctx.remaining flash = content.drop data.length)
    (hlarger : ∀ pair ∈ pairs, data.length ≤ pair.1) :
    ∃ size, Prog.exec (World.handle env) (loadPairs sha name partition pairs ctx data) world =
      ((searchPrefixes sha content data.length pairs).map fun found => (found, size), world) := by
  induction pairs generalizing ctx data with
  | nil => exact ⟨data.length, rfl⟩
  | cons pair rest ih =>
      obtain ⟨size, sha1sum⟩ := pair
      obtain ⟨hfirst, hrest⟩ := List.pairwise_cons.mp hsorted
      have hlength : data.length ≤ content.length := by
        have htake := congrArg List.length hdata
        rw [List.length_take] at htake
        omega
      have hsize : data.length ≤ size := hlarger _ List.mem_cons_self
      obtain ⟨got, ctx', hrun, hgot⟩ := @readNext_run env world name partition flash ctx hflash
        hvalid (size - data.length)
      have hread : Prog.exec (World.handle env)
          (ExceptT.lift (readNext name partition ctx (size - data.length)) : Checked _) world =
            (.ok (got, ctx'), world) := by
        rw [Prog.exec_lift, hrun]
      unfold loadPairs searchPrefixes
      dsimp only
      rw [Prog.exec_bind_ok hread]
      rw [hremaining, List.length_drop] at hgot
      split_ifs at hgot with hfits
      · obtain ⟨rfl, hvalid', hremaining'⟩ := hgot
        rw [if_neg (by omega)]
        have hbytes : ((content.drop data.length).take (size - data.length)).length =
            size - data.length := by
          rw [List.length_take, List.length_drop]
          omega
        have hgrown : data ++ (content.drop data.length).take (size - data.length) =
            content.take size := by
          have hsplit := List.take_add (i := data.length) (j := size - data.length) (l := content)
          rw [Nat.add_sub_cancel' hsize, ← hdata] at hsplit
          exact hsplit.symm
        have hwhole : (content.take size).length = size := by
          rw [List.length_take]
          omega
        simp only [hbytes, ne_eq, not_true_eq_false, if_false, hgrown]
        cases sha1sum with
        | none => exact ⟨0, rfl⟩
        | some str =>
            dsimp only
            cases parseSha1 str with
            | none => exact ⟨(content.take size).length, rfl⟩
            | some digest =>
                dsimp only
                split_ifs with hmatch
                · exact ⟨(content.take size).length, rfl⟩
                · have hstep := @ih ctx' (content.take size) hvalid' hrest (by rw [hwhole])
                    (by rw [hremaining', List.drop_drop, hwhole, Nat.add_sub_cancel' hsize])
                    (by rw [hwhole]; exact hfirst)
                  rw [hwhole] at hstep
                  exact hstep
      · rw [if_pos (by omega)]
        cases got with
        | none => exact ⟨data.length, rfl⟩
        | some bytes =>
            refine ⟨data.length, ?_⟩
            simp only [ne_eq, hgot bytes rfl, not_false_eq_true, if_true]
            rfl

theorem openMtd_run (env : Env) (world : World) (name : CString) :
    (openMtd name).run (World.handle env) world =
      ((world.partitions name).map Sigma.fst, world) := by
  cases hfound : world.partitions name with
  | none => simp [openMtd, World.handle, hfound, Prog.ask]
  | some entry => simp [openMtd, World.handle, hfound, Prog.ask]

/-- What is made of the result of the search. -/
def loadOutcome (sha : Bytes → Digest) (file : FileContents) (size : Nat) :
    Option Bytes → Int × FileContents
  | none => (-1, { file with data := .null, size := size })
  | some data => (0, ⟨sha data, .live data, data.length, 0o644, 0, 0⟩)

/-- A partition that exists is searched; without a pair there is no largest
size. -/
theorem loadSorted_exec
    {lib : Library} {sorted : List (Nat × Option CString)} (file : FileContents)
    (hflash : world.partitions name = some ⟨partition, flash⟩)
    (hsorted : sorted.Pairwise fun first second => first.1 ≤ second.1) :
    ∃ size, Prog.exec (World.handle env) (loadSorted lib sha name sorted file) world =
      ((match sorted.getLast? with
        | none => .error .outOfBounds
        | some (largest, _) =>
            if lib.malloc largest then
              (searchPrefixes sha (flash.streamFrom 0) 0 sorted).map (loadOutcome sha file size)
            else .error .outOfBounds), world) := by
  unfold loadSorted
  have hopen : Prog.exec (World.handle env) (ExceptT.lift (openMtd name) : Checked _) world =
      (.ok (some partition), world) := by
    rw [Prog.exec_lift, openMtd_run, hflash]
    rfl
  rw [Prog.exec_bind_ok hopen]
  dsimp only
  rcases sorted.getLast? with _ | ⟨largest, last⟩
  · exact ⟨0, rfl⟩
  · dsimp only
    split_ifs with hmalloc
    · obtain ⟨size, hpairs⟩ := @loadPairs_exec env sha world name partition flash sorted
        (mtdReadPartition partition) (flash.streamFrom 0) [] hflash
        (mtdReadPartition_valid partition) hsorted rfl
        (by rw [mtdReadPartition_remaining]; rfl) (by simp)
      refine ⟨size, ?_⟩
      rw [List.length_nil] at hpairs
      rcases hsearch : searchPrefixes sha (flash.streamFrom 0) 0 sorted with stuck | _ | data
      · rw [hsearch] at hpairs
        rw [Prog.exec_bind_error hpairs]
        rfl
      · rw [hsearch] at hpairs
        rw [Prog.exec_bind_ok hpairs]
        rfl
      · rw [hsearch] at hpairs
        rw [Prog.exec_bind_ok hpairs]
        rfl
    · exact ⟨0, rfl⟩

end Reading

/-! ## Names -/

/-- A size and a hash as they are listed in the name of a partition. -/
structure ListedPrefix where
  sizeStr : CString
  sha1 : CString

def ListedPrefix.size (listed : ListedPrefix) : Nat :=
  decimal listed.sizeStr

/-- The size is a positive number below two gigabytes in decimal digits, and the
hash can be parsed. -/
structure ListedPrefix.Valid (listed : ListedPrefix) : Prop where
  digits : ∀ c ∈ listed.sizeStr, c.isDigit = true
  size_pos : 0 < listed.size
  size_lt : listed.size < 2 ^ 31
  sha1 : parseSha1 listed.sha1 ≠ none

/-- The prefix of that size has that hash. -/
def ListedPrefix.Matches (sha : Bytes → Digest) (content : Bytes) (listed : ListedPrefix) : Prop :=
  parseSha1 listed.sha1 = some (sha (content.take listed.size))

/-- The fields of a name, each after a colon. -/
def fieldsText (fields : List CString) : CString :=
  fields.flatMap fun field => ':' :: field

/-- `MTD:<partition>:<size_1>:<sha1_1>:<size_2>:<sha1_2>:...` -/
def mtdName (partition : CString) (listed : List ListedPrefix) : CString :=
  "MTD".toList ++ fieldsText (partition :: listed.flatMap fun pair => [pair.sizeStr, pair.sha1])

section Names

theorem splitOn_fieldsText
    {first : CString} {fields : List CString} (hfirst : ':' ∉ first)
    (hfields : ∀ field ∈ fields, ':' ∉ field) :
    (first ++ fieldsText fields).splitOn ':' = first :: fields := by
  induction fields generalizing first with
  | nil =>
      rw [fieldsText, List.flatMap_nil, List.append_nil]
      exact List.splitOn_eq_singleton hfirst
  | cons field rest ih =>
      have htext : first ++ fieldsText (field :: rest) =
          first ++ ':' :: (field ++ fieldsText rest) := by
        simp [fieldsText]
      rw [htext, List.splitOn_append_cons_self_of_not_mem hfirst,
        ih (hfields field List.mem_cons_self) fun other hother =>
          hfields other (List.mem_cons_of_mem _ hother)]

theorem count_fieldsText
    {first : CString} {fields : List CString} (hfirst : ':' ∉ first)
    (hfields : ∀ field ∈ fields, ':' ∉ field) :
    (first ++ fieldsText fields).count ':' = fields.length := by
  induction fields generalizing first with
  | nil => simp [fieldsText, List.count_eq_zero_of_not_mem hfirst]
  | cons field rest ih =>
      have htext : first ++ fieldsText (field :: rest) =
          first ++ ':' :: (field ++ fieldsText rest) := by
        simp [fieldsText]
      rw [htext, List.count_append, List.count_cons_self,
        ih (hfields field List.mem_cons_self) fun other hother =>
          hfields other (List.mem_cons_of_mem _ hother),
        List.count_eq_zero_of_not_mem hfirst, List.length_cons]
      omega

theorem hexDigit_colon : hexDigit ':' = none := by decide

theorem parsePairs_colon
    {count : Nat} {str rest : CString} {digest : List.Vector UInt8 count}
    (hparse : parsePairs count str = some (digest, rest)) (hrest : ':' ∉ rest) : ':' ∉ str := by
  induction count generalizing str rest with
  | zero =>
      have hsame : str = rest := by
        simp only [parsePairs, Option.some.injEq, Prod.mk.injEq] at hparse
        exact hparse.2
      rw [hsame]
      exact hrest
  | succ count ih =>
      match str with
      | [] => simp [parsePairs] at hparse
      | [high] => simp [parsePairs] at hparse
      | high :: low :: tail =>
          simp only [parsePairs, Option.bind_eq_bind, Option.bind_eq_some_iff, Option.some.injEq,
            Prod.mk.injEq] at hparse
          obtain ⟨highDigit, hhigh, lowDigit, hlow, ⟨digest', rest'⟩, htail, -, hsame⟩ := hparse
          have hhigh' : ':' ≠ high := by
            rintro rfl
            simp [hexDigit_colon] at hhigh
          have hlow' : ':' ≠ low := by
            rintro rfl
            simp [hexDigit_colon] at hlow
          simp only at hsame
          subst hsame
          have htail' := ih htail hrest
          simp [hhigh', hlow', htail']

theorem parseSha1_colon {str : CString} (hparse : parseSha1 str ≠ none) : ':' ∉ str := by
  unfold parseSha1 at hparse
  split at hparse
  · rename_i digest hpairs
    exact parsePairs_colon hpairs (by simp)
  · exact absurd rfl hparse

theorem parseSha1_ne_nil {str : CString} (hparse : parseSha1 str ≠ none) : str ≠ [] := by
  rintro rfl
  exact hparse rfl

theorem strtol_digits
    {str : CString} (hdigits : ∀ c ∈ str, c.isDigit = true) (hsmall : decimal str < 2 ^ 31) :
    strtol str = decimal str := by
  unfold strtol
  cases str with
  | nil => rfl
  | cons c rest =>
      have hc : c.isDigit = true := hdigits c List.mem_cons_self
      have hspace : isSpace c = false := by
        rw [Bool.eq_false_iff]
        intro hspace
        have hmem : c ∈ [' ', '\t', '\n', '\x0b', '\x0c', '\r'] := by
          simpa [isSpace] using hspace
        have hnone : ∀ d ∈ [' ', '\t', '\n', '\x0b', '\x0c', '\r'], ¬ Char.isDigit d = true :=
          forall_mem_of_all (by decide)
        exact hnone c hmem hc
      rw [List.dropWhile_cons_of_neg (by simp [hspace])]
      split
      · rename_i hminus
        rw [(List.cons.inj hminus).1] at hc
        exact absurd hc (by decide)
      · rename_i hplus
        rw [(List.cons.inj hplus).1] at hc
        exact absurd hc (by decide)
      · omega

theorem ListedPrefix.Valid.sizeStr_ne_nil {pair : ListedPrefix} (hvalid : pair.Valid) :
    pair.sizeStr ≠ [] := by
  intro hnil
  have hpos := hvalid.size_pos
  rw [ListedPrefix.size, hnil] at hpos
  exact absurd hpos (by decide)

theorem ListedPrefix.Valid.sizeStr_colon {pair : ListedPrefix} (hvalid : pair.Valid) :
    ':' ∉ pair.sizeStr := by
  intro hmem
  exact absurd (hvalid.digits ':' hmem) (by decide)

theorem listed_fields
    {listed : List ListedPrefix} (hvalid : ∀ pair ∈ listed, pair.Valid) :
    ∀ field ∈ listed.flatMap fun pair => [pair.sizeStr, pair.sha1], field ≠ [] ∧ ':' ∉ field := by
  intro field hfield
  obtain ⟨pair, hpair, hmem⟩ := List.mem_flatMap.mp hfield
  have hpair' := hvalid pair hpair
  rcases List.mem_pair.mp hmem with rfl | rfl
  · exact ⟨hpair'.sizeStr_ne_nil, hpair'.sizeStr_colon⟩
  · exact ⟨parseSha1_ne_nil hpair'.sha1, parseSha1_colon hpair'.sha1⟩

section Named

variable {name : CString} {listed : List ListedPrefix}

theorem tokens_mtdName
    (hname : name ≠ []) (hcolon : ':' ∉ name) (hvalid : ∀ pair ∈ listed, pair.Valid) :
    tokens (mtdName name listed) =
      "MTD".toList :: name :: listed.flatMap fun pair => [pair.sizeStr, pair.sha1] := by
  have hfields := listed_fields hvalid
  have hsplit := @splitOn_fieldsText "MTD".toList
    (name :: listed.flatMap fun pair => [pair.sizeStr, pair.sha1]) (by decide) (by
      intro field hfield
      rcases List.mem_cons.mp hfield with rfl | hmem
      · exact hcolon
      · exact (hfields field hmem).2)
  rw [tokens, mtdName, hsplit, List.filter_eq_self]
  intro field hfield
  rcases List.mem_cons.mp hfield with rfl | hmem
  · decide
  · rcases List.mem_cons.mp hmem with rfl | hmem'
    · simpa using hname
    · simpa using (hfields field hmem').1

theorem count_mtdName
    (hcolon : ':' ∉ name) (hvalid : ∀ pair ∈ listed, pair.Valid) :
    ((mtdName name listed).count ':' - 1) / 2 = listed.length := by
  have hfields := listed_fields hvalid
  have hcount := @count_fieldsText "MTD".toList
    (name :: listed.flatMap fun pair => [pair.sizeStr, pair.sha1]) (by decide) (by
      intro field hfield
      rcases List.mem_cons.mp hfield with rfl | hmem
      · exact hcolon
      · exact (hfields field hmem).2)
  have hlength : (listed.flatMap fun pair => [pair.sizeStr, pair.sha1]).length =
      2 * listed.length := by
    simp [List.length_flatMap, Nat.mul_comm]
  rw [mtdName, hcount, List.length_cons, hlength]
  omega

theorem sizePairs_listed (hvalid : ∀ pair ∈ listed, pair.Valid) :
    sizePairs listed.length (listed.flatMap fun pair => [pair.sizeStr, pair.sha1]) =
      .ok (some (listed.map fun pair => (pair.size, some pair.sha1))) := by
  induction listed with
  | nil => rfl
  | cons pair rest ih =>
      have hpair := hvalid pair List.mem_cons_self
      have hpos := hpair.size_pos
      have hsmall := hpair.size_lt
      have hsize : (strtol pair.sizeStr % 2 ^ 32).toNat = pair.size := by
        rw [strtol_digits hpair.digits hsmall, ListedPrefix.size]
        unfold ListedPrefix.size at hsmall
        omega
      have hrest := ih fun other hother => hvalid other (List.mem_cons_of_mem _ hother)
      have hnonzero : ¬ pair.size = 0 := by omega
      simp only [List.flatMap_cons, List.length_cons, List.cons_append, List.nil_append, sizePairs,
        hsize, if_neg hnonzero, List.drop_one, List.tail_cons, hrest, ok_bind, List.head?_cons,
        List.map_cons]

end Named

/-- In a sorted list of sizes and hashes that can all be read, the search finds
the smallest prefix that matches. -/
theorem searchPrefixes_listed
    {sha : Bytes → Digest} {content : Bytes} {listed : List ListedPrefix} {got : Nat}
    (hsorted : listed.Pairwise fun first second => first.size ≤ second.size)
    (hvalid : ∀ pair ∈ listed, pair.Valid) (hlong : ∀ pair ∈ listed, pair.size ≤ content.length) :
    (∃ pair ∈ listed, pair.Matches sha content ∧
      (∀ other ∈ listed, other.Matches sha content → pair.size ≤ other.size) ∧
      searchPrefixes sha content got (listed.map fun pair => (pair.size, some pair.sha1)) =
        .ok (some (content.take pair.size))) ∨
    ((∀ pair ∈ listed, ¬ pair.Matches sha content) ∧
      searchPrefixes sha content got (listed.map fun pair => (pair.size, some pair.sha1)) =
        .ok none) := by
  induction listed generalizing got with
  | nil => exact .inr ⟨by simp, rfl⟩
  | cons pair rest ih =>
      obtain ⟨hfirst, hrest⟩ := List.pairwise_cons.mp hsorted
      have hpair := hvalid pair List.mem_cons_self
      have hread : ¬ (2 ^ 31 ≤ pair.size - got ∨ content.length < pair.size) := by
        have hsmall := hpair.size_lt
        have hfits := hlong pair List.mem_cons_self
        omega
      obtain ⟨digest, hdigest⟩ := Option.ne_none_iff_exists'.mp hpair.sha1
      simp only [List.map_cons, searchPrefixes, if_neg hread, hdigest]
      by_cases hmatch : sha (content.take pair.size) = digest
      · rw [if_pos hmatch]
        refine .inl ⟨pair, List.mem_cons_self, by rw [ListedPrefix.Matches, hdigest, hmatch], ?_,
          rfl⟩
        intro other hother _
        rcases List.mem_cons.mp hother with rfl | hmem
        · exact le_rfl
        · exact hfirst other hmem
      · rw [if_neg hmatch]
        have hother : ¬ pair.Matches sha content := by
          rw [ListedPrefix.Matches, hdigest]
          intro hsame
          exact hmatch (Option.some.inj hsame).symm
        rcases @ih pair.size hrest (fun other hmem => hvalid other (List.mem_cons_of_mem _ hmem))
            (fun other hmem => hlong other (List.mem_cons_of_mem _ hmem)) with
          ⟨found, hfound, hmatches, hsmallest, hsearch⟩ | ⟨hnone, hsearch⟩
        · refine .inl ⟨found, List.mem_cons_of_mem _ hfound, hmatches, ?_, hsearch⟩
          intro other hmem hother'
          rcases List.mem_cons.mp hmem with rfl | hmem'
          · exact absurd hother' hother
          · exact hsmallest other hmem' hother'
        · refine .inr ⟨?_, hsearch⟩
          intro other hmem
          rcases List.mem_cons.mp hmem with rfl | hmem'
          · exact hother
          · exact hnone other hmem'

/-- The pairs of a size and a hash in order of increasing size. -/
theorem sorted_pairs (pairs : List (Nat × Option CString)) :
    (pairs.mergeSort fun first second => first.1 ≤ second.1).Pairwise
      fun first second => first.1 ≤ second.1 := by
  have hpairwise := @List.pairwise_mergeSort _
    (fun first second : Nat × Option CString => decide (first.1 ≤ second.1))
    (by
      intro first second third hfirst hsecond
      simp only [decide_eq_true_eq] at hfirst hsecond ⊢
      omega)
    (by
      intro first second
      simp only [Bool.or_eq_true, decide_eq_true_eq]
      omega)
    pairs
  simpa using hpairwise

theorem sorted_listed (listed : List ListedPrefix) :
    ∃ sorted : List ListedPrefix, sorted.Perm listed ∧
      (listed.map fun pair => (pair.size, some pair.sha1)).mergeSort
          (fun first second => first.1 ≤ second.1) =
        sorted.map fun pair => (pair.size, some pair.sha1) := by
  refine ⟨listed.mergeSort fun first second => first.size ≤ second.size,
    List.mergeSort_perm _ _, ?_⟩
  rw [List.map_mergeSort]
  intro first _ second _
  rfl

/-- `LoadMTDContents` finds the smallest of the listed prefixes that has its
hash. -/
theorem loadMTDContents_smallest
    (env : Env) (lib : Library) (sha : Bytes → Digest) (world : World) {name : CString}
    {listed : List ListedPrefix} {partition : MtdPartition} {flash : Flash partition}
    (file : FileContents) (hname : name ≠ []) (hcolon : ':' ∉ name) (hlisted : listed ≠ [])
    (hvalid : ∀ pair ∈ listed, pair.Valid)
    (hflash : world.partitions name = some ⟨partition, flash⟩)
    (hlong : ∀ pair ∈ listed, pair.size ≤ (flash.streamFrom 0).length)
    (hmalloc : ∀ pair ∈ listed, lib.malloc pair.size = true) :
    ∃ code file', Prog.exec (World.handle env)
        (loadMTDContents lib sha (mtdName name listed) file) world = (.ok (code, file'), world) ∧
      (code = 0 ∨ code = -1) ∧
      (code = 0 ↔ ∃ pair ∈ listed, pair.Matches sha (flash.streamFrom 0)) ∧
      (code = 0 → ∃ pair ∈ listed, pair.Matches sha (flash.streamFrom 0) ∧
        (∀ other ∈ listed, other.Matches sha (flash.streamFrom 0) → pair.size ≤ other.size) ∧
        file'.size = pair.size ∧ file'.data = .live ((flash.streamFrom 0).take pair.size) ∧
        file'.sha1 = sha ((flash.streamFrom 0).take pair.size)) := by
  obtain ⟨sorted, hperm, hmerge⟩ := sorted_listed listed
  have hpairwise := sorted_pairs (listed.map fun pair => (pair.size, some pair.sha1))
  rw [hmerge] at hpairwise
  have hsorted : sorted.Pairwise fun first second => first.size ≤ second.size := by
    rw [List.pairwise_map] at hpairwise
    exact hpairwise
  have hmem : ∀ pair, pair ∈ sorted ↔ pair ∈ listed := fun pair => hperm.mem_iff
  have hload : loadMTDContents lib sha (mtdName name listed) file =
      loadSorted lib sha name (sorted.map fun pair => (pair.size, some pair.sha1)) file := by
    simp only [loadMTDContents, tokens_mtdName hname hcolon hvalid, List.drop_one, List.tail_cons,
      count_mtdName hcolon hvalid, sizePairs_listed hvalid, hmerge]
  obtain ⟨size, hexec⟩ := @loadSorted_exec env sha world name partition flash lib _ file hflash
    hpairwise
  obtain ⟨last, hlast⟩ : ∃ last, sorted.getLast? = some last := by
    cases hlast : sorted.getLast? with
    | none =>
        rw [List.getLast?_eq_none_iff] at hlast
        rw [hlast] at hperm
        exact absurd hperm.symm.eq_nil hlisted
    | some last => exact ⟨last, rfl⟩
  have hlargest : lib.malloc last.size = true :=
    hmalloc last ((hmem last).mp (List.mem_of_getLast? hlast))
  rw [hload]
  simp only [List.getLast?_map, hlast, Option.map_some, hlargest, if_true] at hexec
  rcases @searchPrefixes_listed sha (flash.streamFrom 0) sorted 0 hsorted
      (fun pair hpair => hvalid pair ((hmem pair).mp hpair))
      (fun pair hpair => hlong pair ((hmem pair).mp hpair)) with
    ⟨found, hfound, hmatches, hsmallest, hsearch⟩ | ⟨hnone, hsearch⟩
  · have hfits : ((flash.streamFrom 0).take found.size).length = found.size :=
      List.length_take_of_le (hlong found ((hmem found).mp hfound))
    rw [hsearch] at hexec
    refine ⟨0, _, hexec, .inl rfl, iff_of_true rfl ⟨found, (hmem found).mp hfound, hmatches⟩,
      fun _ => ⟨found, (hmem found).mp hfound, hmatches, ?_, ?_, rfl, rfl⟩⟩
    · intro other hother
      exact hsmallest other ((hmem other).mpr hother)
    · simp [hfits]
  · rw [hsearch] at hexec
    refine ⟨-1, _, hexec, .inr rfl, iff_of_false (by decide) ?_, fun hzero => ?_⟩
    · rintro ⟨pair, hpair, hmatches⟩
      exact hnone pair ((hmem pair).mpr hpair) hmatches
    · exact absurd hzero (by decide)

end Names

/-- A partition of one block of four bytes. -/
def smallPartition : MtdPartition where
  size := 4
  eraseSize := 4
  eraseSize_pos := by decide
  size_lt := by decide

def smallFlash : Flash smallPartition where
  block _ := ⟨[1, 2, 3, 4], rfl⟩
  bad _ := false

def smallWorld : World where
  files _ := none
  partitions name := if name = "boot".toList then some ⟨smallPartition, smallFlash⟩ else none
  stdout := []

/-- A hash that only looks at the length. -/
def lengthHash (bytes : Bytes) : Digest :=
  List.Vector.replicate 20 (UInt8.ofNat bytes.length)

/-- The hash of three bytes as text. -/
def threeHash : CString := (List.replicate 20 "03".toList).flatten

theorem loadMTDContents_smallest_boot :
    ∃ code file', Prog.exec (World.handle sampleEnv)
        (loadMTDContents sampleLibrary lengthHash
          (mtdName "boot".toList [⟨"4".toList, threeHash⟩, ⟨"3".toList, threeHash⟩])
          ⟨lengthHash [], .null, 0, 0, 0, 0⟩) smallWorld = (.ok (code, file'), smallWorld) ∧
      (code = 0 ∨ code = -1) ∧
      (code = 0 ↔ ∃ pair ∈ ([⟨"4".toList, threeHash⟩, ⟨"3".toList, threeHash⟩] : List ListedPrefix),
        pair.Matches lengthHash (smallFlash.streamFrom 0)) ∧
      (code = 0 → ∃ pair ∈ ([⟨"4".toList, threeHash⟩, ⟨"3".toList, threeHash⟩] : List ListedPrefix),
        pair.Matches lengthHash (smallFlash.streamFrom 0) ∧
        (∀ other ∈ ([⟨"4".toList, threeHash⟩, ⟨"3".toList, threeHash⟩] : List ListedPrefix),
          other.Matches lengthHash (smallFlash.streamFrom 0) → pair.size ≤ other.size) ∧
        file'.size = pair.size ∧ file'.data = .live ((smallFlash.streamFrom 0).take pair.size) ∧
        file'.sha1 = lengthHash ((smallFlash.streamFrom 0).take pair.size)) := by
  apply loadMTDContents_smallest sampleEnv sampleLibrary lengthHash smallWorld
  · decide
  · decide
  · decide
  · intro pair hpair
    rcases List.mem_pair.mp hpair with rfl | rfl
    · exact ⟨forall_mem_of_all (by decide), by decide, by decide, by decide⟩
    · exact ⟨forall_mem_of_all (by decide), by decide, by decide, by decide⟩
  · simp [smallWorld]
  · exact forall_mem_of_all (by decide)
  · exact fun _ _ => rfl

/-! ## Malformed names -/

end OpenRecovery
