import OpenRecovery.FreeCache
import Mathlib

/-!
# How exact the free-space check is

`FreeSpaceForFile` multiplies block size and free blocks as 32-bit numbers and
reports an error as the largest such number.  A failing `statfs` therefore
passes for a huge amount of free space, and on a large partition the product
may wrap around and pass for a small one.  Apart from these two cases the check
is exact.
-/

namespace OpenRecovery

open Effects

/-- `CacheSizeCheck`. -/
def cacheSizeCheck (bytes : Nat) : SysProg Int := do
  let made ← makeFreeSpaceOnCache bytes
  pure (if made < 0 then 1 else 0)

/-- What the calls of `statfs` in a trace gave. -/
def statfsReplies (events : List SysEvent) : List (Option (Nat × Nat)) :=
  events.filterMap fun
    | ⟨.statfs _, reply⟩ => some reply
    | _ => none

theorem statfsReplies_append (first second : List SysEvent) :
    statfsReplies (first ++ second) = statfsReplies first ++ statfsReplies second :=
  List.filterMap_append

/-- Each report comes from one call of `statfs`. -/
theorem reports_eq_map (events : List SysEvent) :
    reports events = (statfsReplies events).map freeBytes := by
  induction events with
  | nil => rfl
  | cons event events ih =>
      obtain ⟨op, reply⟩ := event
      cases op with
      | statfs path => exact congrArg (freeBytes reply :: ·) ih
      | _ => exact ih

/-- A reply of `statfs` is enough for the request, without rounding. -/
def Enough (bytesNeeded : Nat) : Option (Nat × Nat) → Prop
  | none => False
  | some (bsize, bfree) => bytesNeeded ≤ bsize * bfree

/-- Success is reported only if the last reply was enough, and it is reported
without any deletion if already the first one was. -/
structure ExactCheck (bytesNeeded : Nat) (events : List SysEvent) (success : Prop) : Prop where
  last_enough : success → ∃ reply, (statfsReplies events).getLast? = some reply ∧
    Enough bytesNeeded reply
  first_enough : ∀ reply, (statfsReplies events).head? = some reply →
    Enough bytesNeeded reply → success ∧ unlinked events = []

/-- No call of `statfs` failed, and the first product was not too large to be
recognised as enough. -/
structure Measured (bytesNeeded : Nat) (events : List SysEvent) : Prop where
  no_failure : none ∉ statfsReplies events
  no_wrap : ∀ bsize bfree, (statfsReplies events).head? = some (some (bsize, bfree)) →
    bytesNeeded ≤ bsize * bfree → bytesNeeded ≤ bsize * bfree % 2 ^ 32

section Deletion

variable {bytesNeeded : Nat}

/-- A failing `statfs` ends the deletions, and without a deletion there is no
further call. -/
theorem deleteFiles_replies
    (hneeded : bytesNeeded < 2 ^ 32)
    {freeNow free : Nat} {names : List (Option CString)} {events : List SysEvent}
    (htrace : (deleteFiles bytesNeeded names freeNow).Traces events free) :
    (none ∈ statfsReplies events → (statfsReplies events).getLast? = some none) ∧
      (unlinked events = [] → statfsReplies events = []) := by
  induction names generalizing freeNow events with
  | nil =>
      obtain ⟨rfl, rfl⟩ := Prog.traces_pure.mp htrace
      exact ⟨(fun hmem => by cases hmem), fun _ => rfl⟩
  | cons name names ih =>
      unfold deleteFiles at htrace
      split_ifs at htrace with henough
      · obtain ⟨rfl, rfl⟩ := Prog.traces_pure.mp htrace
        exact ⟨(fun hmem => by cases hmem), fun _ => rfl⟩
      · cases name with
        | none => exact ih htrace
        | some path =>
            dsimp only at htrace
            rw [Prog.ask_bind_eq, Prog.traces_request] at htrace
            obtain ⟨gone, rest, rfl, hnext⟩ := htrace
            obtain ⟨first, freeNow', second, rfl, hfirst, hsecond⟩ := Prog.traces_bind.mp hnext
            obtain ⟨reply, rfl, rfl⟩ := freeSpaceForFile_traces hfirst
            refine ⟨?_, (fun hnone => by cases hnone)⟩
            intro hmem
            have hmem : none ∈ reply :: statfsReplies second := hmem
            change (reply :: statfsReplies second).getLast? = some none
            rcases List.mem_cons.mp hmem with rfl | hlater
            · have hlarge : bytesNeeded ≤ freeBytes none := by
                rw [freeBytes]
                omega
              have hsecond : second = [] := by
                cases names with
                | nil => exact (Prog.traces_pure.mp hsecond).1
                | cons name names =>
                    unfold deleteFiles at hsecond
                    rw [if_pos hlarge] at hsecond
                    exact (Prog.traces_pure.mp hsecond).1
              rw [hsecond]
              rfl
            · have hlast := (ih hsecond).1 hlater
              cases hreplies : statfsReplies second with
              | nil =>
                  rw [hreplies] at hlater
                  cases hlater
              | cons head tail =>
                  rw [List.getLast?_cons_cons, ← hreplies, hlast]

/-- Either the first reply was enough for the check, which then ends, or
deletions follow, and the last reply decides. -/
theorem makeFreeSpaceOnCache_replies
    (hneeded : bytesNeeded < 2 ^ 32) {events : List SysEvent} {code : Int}
    (htrace : (makeFreeSpaceOnCache bytesNeeded).Traces events code) :
    ∃ first rest, statfsReplies events = first :: rest ∧
      (bytesNeeded ≤ freeBytes first ∧ rest = [] ∧ unlinked events = [] ∧ code = 0 ∨
        freeBytes first < bytesNeeded ∧ (unlinked events = [] → rest = []) ∧
          (none ∈ rest → rest.getLast? = some none) ∧
          (code = 0 ↔ ∃ reply, rest.getLast? = some reply ∧ bytesNeeded ≤ freeBytes reply)) := by
  obtain ⟨start, freeNow, rest, rfl, hfirst, hrest⟩ := Prog.traces_bind.mp htrace
  obtain ⟨reply, rfl, rfl⟩ := freeSpaceForFile_traces hfirst
  split_ifs at hrest with henough
  · obtain ⟨rfl, rfl⟩ := Prog.traces_pure.mp hrest
    exact ⟨reply, [], rfl, .inl ⟨henough, rfl, rfl, rfl⟩⟩
  · obtain ⟨search, left, deletions, rfl, hsearch, hdelete⟩ := Prog.traces_bind.mp hrest
    have hlooks := (findExpendableFiles_traces hsearch).1
    have hnoReplies : statfsReplies search = [] := by
      have hmap := hlooks.1
      rw [reports_eq_map] at hmap
      exact List.map_eq_nil_iff.mp hmap
    have hreplies : statfsReplies ([SysEvent.statfs "/cache".toList reply] ++
        (search ++ deletions)) = reply :: statfsReplies deletions := by
      rw [statfsReplies_append, statfsReplies_append, hnoReplies]
      rfl
    have hunlinked : unlinked ([SysEvent.statfs "/cache".toList reply] ++
        (search ++ deletions)) = unlinked deletions := by
      rw [unlinked_append, unlinked_append, hlooks.2]
      rfl
    refine ⟨reply, statfsReplies deletions, hreplies, .inr ⟨by omega, ?_⟩⟩
    rw [hunlinked]
    have hfailed : deletions = [] → code = -1 →
        (unlinked deletions = [] → statfsReplies deletions = []) ∧
          (none ∈ statfsReplies deletions →
            (statfsReplies deletions).getLast? = some none) ∧
          (code = 0 ↔ ∃ reply, (statfsReplies deletions).getLast? = some reply ∧
            bytesNeeded ≤ freeBytes reply) := by
      rintro rfl rfl
      refine ⟨fun _ => rfl, (fun hmem => nomatch hmem), iff_of_false (by decide) ?_⟩
      rintro ⟨_, hlast, -⟩
      cases hlast
    cases left with
    | none =>
        obtain ⟨hnone, hcode⟩ := Prog.traces_pure.mp hdelete
        exact hfailed hnone hcode
    | some names =>
        cases names with
        | nil =>
            obtain ⟨hnone, hcode⟩ := Prog.traces_pure.mp hdelete
            exact hfailed hnone hcode
        | cons name names =>
            obtain ⟨events, free, last, rfl, hevents, hlast⟩ := Prog.traces_bind.mp hdelete
            obtain ⟨rfl, rfl⟩ := Prog.traces_pure.mp hlast
            rw [List.append_nil]
            obtain ⟨hfailures, hnone⟩ := deleteFiles_replies hneeded hevents
            have hfree := (deleteFiles_traces hevents).1
            rw [reports_eq_map] at hfree
            refine ⟨hnone, hfailures, ?_⟩
            cases hlater : (statfsReplies events).getLast? with
            | none =>
                rw [List.getLast?_eq_none_iff.mp hlater] at hfree
                have hsame : freeBytes reply = free := Option.some.inj hfree
                rw [if_neg (by omega)]
                simp
            | some later =>
                have hne : statfsReplies events ≠ [] := by
                  rintro hnil
                  rw [hnil] at hlater
                  cases hlater
                obtain ⟨head, tail, hcons⟩ := List.exists_cons_of_ne_nil hne
                have hsame : freeBytes later = free := by
                  rw [hcons, List.map_cons, List.getLast?_cons_cons, ← List.map_cons, ← hcons,
                    List.getLast?_map, hlater] at hfree
                  exact Option.some.inj hfree
                simp [hsame]

/-- The check is exact exactly in the runs in which no `statfs` fails and the
first product does not wrap around to less than the request. -/
theorem exactCheck_iff_measured
    (hneeded : bytesNeeded < 2 ^ 32) {events : List SysEvent} {code : Int}
    (htrace : (makeFreeSpaceOnCache bytesNeeded).Traces events code) :
    ExactCheck bytesNeeded events (code = 0) ↔ Measured bytesNeeded events := by
  obtain ⟨first, rest, hreplies, hcases⟩ := makeFreeSpaceOnCache_replies hneeded htrace
  have hlarge : bytesNeeded ≤ freeBytes none := by
    rw [freeBytes]
    omega
  constructor
  · rintro ⟨hlast, hfirst⟩
    rw [hreplies] at hlast hfirst
    rcases hcases with ⟨henough, rfl, hunlinked, rfl⟩ | ⟨hless, hnone, hfailures, hcode⟩
    · obtain ⟨reply, hreply, hfits⟩ := hlast rfl
      obtain rfl : first = reply := Option.some.inj hreply
      refine ⟨?_, ?_⟩
      · rw [hreplies]
        intro hmem
        obtain rfl := List.mem_singleton.mp hmem
        exact hfits
      · intro bsize bfree hhead hproduct
        rw [hreplies] at hhead
        obtain rfl : first = some (bsize, bfree) := Option.some.inj hhead
        exact henough
    · refine ⟨?_, ?_⟩
      · rw [hreplies]
        intro hmem
        rcases List.mem_cons.mp hmem with rfl | hlater
        · omega
        · have hfailed := hfailures hlater
          obtain ⟨reply, hreply, hfits⟩ := hlast (hcode.mpr ⟨none, hfailed, hlarge⟩)
          cases rest with
          | nil => cases hlater
          | cons head tail =>
              rw [List.getLast?_cons_cons, hfailed] at hreply
              obtain rfl := Option.some.inj hreply
              exact hfits
      · intro bsize bfree hhead hproduct
        rw [hreplies] at hhead
        obtain rfl : first = some (bsize, bfree) := Option.some.inj hhead
        obtain ⟨hsuccess, hkept⟩ := hfirst (some (bsize, bfree)) rfl hproduct
        obtain ⟨reply, hreply, -⟩ := hcode.mp hsuccess
        rw [hnone hkept] at hreply
        cases hreply
  · rintro ⟨hnoFailure, hnoWrap⟩
    have hexact : ∀ reply ∈ statfsReplies events, bytesNeeded ≤ freeBytes reply →
        Enough bytesNeeded reply := by
      intro reply hmem hfits
      cases reply with
      | none => exact absurd hmem hnoFailure
      | some both => exact hfits.trans (Nat.mod_le _ _)
    refine ⟨?_, ?_⟩
    · intro hsuccess
      rcases hcases with ⟨henough, rfl, -, -⟩ | ⟨-, -, -, hcode⟩
      · exact ⟨first, by rw [hreplies]; rfl,
          hexact first (by rw [hreplies]; exact List.mem_cons_self) henough⟩
      · obtain ⟨reply, hreply, hfits⟩ := hcode.mp hsuccess
        have hmem := List.mem_of_getLast? hreply
        refine ⟨reply, ?_, hexact reply (by rw [hreplies]; exact List.mem_cons_of_mem _ hmem) hfits⟩
        rw [hreplies]
        cases rest with
        | nil => cases hreply
        | cons head tail => rw [List.getLast?_cons_cons, hreply]
    · intro reply hhead henough
      cases reply with
      | none => exact henough.elim
      | some both =>
          have hfits := hnoWrap both.1 both.2 hhead henough
          rw [hreplies] at hhead
          obtain rfl : first = some both := Option.some.inj hhead
          rcases hcases with ⟨-, -, hunlinked, hcode⟩ | ⟨hless, -⟩
          · exact ⟨hcode, hunlinked⟩
          · exact absurd hfits (not_le.mpr hless)

end Deletion

theorem makeFreeSpaceOnCache_returns (bytesNeeded : Nat) :
    (makeFreeSpaceOnCache bytesNeeded).Returns fun code => code = 0 ∨ code = -1 := by
  have hresult : ∀ free : Nat,
      (if bytesNeeded ≤ free then 0 else -1 : Int) = 0 ∨
        (if bytesNeeded ≤ free then 0 else -1 : Int) = -1 := by
    intro free
    split
    · exact .inl rfl
    · exact .inr rfl
  rw [makeFreeSpaceOnCache]
  apply (Prog.returns_trivial _).bind
  intro freeNow _
  split
  next => exact .inl rfl
  next =>
    apply (Prog.returns_trivial _).bind
    intro left _
    split
    next => exact .inr rfl
    next => exact .inr rfl
    next =>
      apply (Prog.returns_trivial _).bind
      intro free _
      exact hresult free

/-- Both entry points report success for the same runs. -/
theorem cacheSizeCheck_traces
    {bytes : Nat} {events : List SysEvent} {code : Int}
    (htrace : (cacheSizeCheck bytes).Traces events code) :
    ∃ made, (makeFreeSpaceOnCache bytes).Traces events made ∧ (code = 0 ↔ made = 0) := by
  obtain ⟨first, made, second, rfl, hmade, hrest⟩ := Prog.traces_bind.mp htrace
  obtain ⟨rfl, rfl⟩ := Prog.traces_pure.mp hrest
  rw [List.append_nil]
  refine ⟨made, hmade, ?_⟩
  rcases (makeFreeSpaceOnCache_returns bytes).of_traces hmade with rfl | rfl
  · exact iff_of_true rfl rfl
  · exact iff_of_false (by decide) (by decide)

/-- `MakeFreeSpaceOnCache` and `CacheSizeCheck` are exact exactly in the runs in
which no `statfs` fails and the first product does not wrap around to less than
the request. -/
theorem freeSpaceChecks_exact_iff
    {bytesNeeded : Nat} (hneeded : bytesNeeded < 2 ^ 32) (events : List SysEvent) (code : Int) :
    ((makeFreeSpaceOnCache bytesNeeded).Traces events code →
      (ExactCheck bytesNeeded events (code = 0) ↔ Measured bytesNeeded events)) ∧
    ((cacheSizeCheck bytesNeeded).Traces events code →
      (ExactCheck bytesNeeded events (code = 0) ↔ Measured bytesNeeded events)) := by
  refine ⟨exactCheck_iff_measured hneeded, ?_⟩
  intro htrace
  obtain ⟨made, hmade, hsame⟩ := cacheSizeCheck_traces htrace
  rw [hsame]
  exact exactCheck_iff_measured hneeded hmade

/-- The run of `fullCache` for 8000 bytes. -/
theorem freeSpaceChecks_exact_iff_fullCache :
    ExactCheck 8000 fullCache ((0 : Int) = 0) ↔ Measured 8000 fullCache := by
  apply (freeSpaceChecks_exact_iff (show 8000 < 2 ^ 32 by decide) fullCache 0).1
  exact .asked _ (.asked _ (.asked _ (.asked _ (.asked _ (.asked _ (.asked _
    (.returned _)))))))

/-- A `statfs` that fails. -/
def failingStatfs : List SysEvent := [.statfs "/cache".toList none]

/-- Four gigabytes of free space, and nothing on the cache to delete. -/
def largeCache : List SysEvent :=
  [.statfs "/cache".toList (some (4096, 2 ^ 20)),
    .readdir "/cache".toList none,
    .readdir "/cache/recovery/otatest".toList none,
    .openFiles (some [])]

/-- A failing `statfs` counts as free space, and four gigabytes count as
none. -/
theorem freeSpaceChecks_inexact :
    ((cacheSizeCheck 1).Traces failingStatfs 0 ∧ ¬ ExactCheck 1 failingStatfs ((0 : Int) = 0)) ∧
    (cacheSizeCheck 1).Traces largeCache 1 ∧ ¬ ExactCheck 1 largeCache ((1 : Int) = 0) := by
  refine ⟨⟨.asked _ (.returned _), ?_⟩,
    .asked _ (.asked _ (.asked _ (.asked _ (.returned _)))), ?_⟩
  · rintro ⟨hlast, -⟩
    obtain ⟨reply, hreply, henough⟩ := hlast rfl
    obtain rfl : none = reply := Option.some.inj hreply
    exact henough
  · rintro ⟨-, hfirst⟩
    obtain ⟨hsuccess, -⟩ := hfirst (some (4096, 2 ^ 20)) rfl (show 1 ≤ 4096 * 2 ^ 20 by decide)
    exact absurd hsuccess (by decide)

end OpenRecovery
