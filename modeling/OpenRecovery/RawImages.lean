import OpenRecovery.MtdCuts
import OpenRecovery.MtdLedger
import OpenRecovery.PropertyValues
import Mathlib

/-!
# Writing a raw image

`write_raw_image` copies a file to a partition through the block writer.  A run is any
sequence of replies, of the file system and of the device.  When the name of the partition
is returned, the file should have been verified on the partition, with its last block; but
the calls that write the last block are not looked at, nor is the end of the file.
-/

namespace OpenRecovery.Edify

open Effects Mtd

/-! ## Runs of the updater -/

section Runs

variable {α β : Type}

abbrev UpdaterEvent :=
  Event (EdifyOp UpdaterOp) (EdifyOp.Reply UpdaterOp.Reply)

/-- A run of a part of the updater with the requests of the trace. -/
def Ran (program : Update α) (state : State) (trace : List UpdaterEvent)
    (value : Except Stuck (α × State)) : Prop :=
  ((program.run state).run).Traces trace value

theorem ran_bind {program : Update α} {rest : α → Update β} {state : State}
    {trace : List UpdaterEvent} {value : Except Stuck (β × State)} :
    Ran (program >>= rest) state trace value ↔
      (∃ error, Ran program state trace (.error error) ∧ value = .error error) ∨
        ∃ first result middle second, trace = first ++ second ∧
          Ran program state first (.ok (result, middle)) ∧ Ran (rest result) middle second value := by
  rw [Ran, StateT.run_bind, Prog.traces_except_bind]
  refine or_congr Iff.rfl ?_
  constructor
  · rintro ⟨first, ⟨result, middle⟩, second, htrace, hfirst, hsecond⟩
    exact ⟨first, result, middle, second, htrace, hfirst, hsecond⟩
  · rintro ⟨first, result, middle, second, htrace, hfirst, hsecond⟩
    exact ⟨first, ⟨result, middle⟩, second, htrace, hfirst, hsecond⟩

theorem ran_pure {result : α} {state : State} {trace : List UpdaterEvent}
    {value : Except Stuck (α × State)} :
    Ran (pure result) state trace value ↔ trace = [] ∧ value = .ok (result, state) :=
  Prog.traces_pure

theorem ran_sys {op : SysOp} {state : State} {trace : List UpdaterEvent}
    {value : Except Stuck (op.Reply × State)} :
    Ran (sys op) state trace value ↔
      ∃ reply : op.Reply, trace = [⟨.other (.sys op), reply⟩] ∧ value = .ok (reply, state) := by
  constructor
  · intro hran
    obtain ⟨reply, rest, rfl, hrest⟩ := Prog.traces_request.mp hran
    obtain ⟨rfl, rfl⟩ := Prog.traces_pure.mp hrest
    exact ⟨reply, rfl, rfl⟩
  · rintro ⟨reply, rfl, rfl⟩
    exact Prog.traces_request.mpr ⟨reply, [], rfl, Prog.traces_pure.mpr ⟨rfl, rfl⟩⟩

/-- A request to the device, as the updater makes it. -/
def deviceEvent (name : CString) (event : Event MtdOp MtdOp.Reply) : UpdaterEvent :=
  ⟨.other (.sys (.mtd name event.1)), event.2⟩

theorem ran_onPartition {name : CString} {program : MtdProg α} {state : State}
    {trace : List UpdaterEvent} {value : Except Stuck (α × State)} :
    Ran (liftSys (onPartition name program)) state trace value ↔
      ∃ events result, program.Traces events result ∧ trace = events.map (deviceEvent name) ∧
        value = .ok (result, state) := by
  induction program generalizing trace with
  | pure result =>
      constructor
      · intro hran
        obtain ⟨rfl, rfl⟩ := Prog.traces_pure.mp hran
        exact ⟨[], result, .returned _, rfl, rfl⟩
      · rintro ⟨events, result', htrace, rfl, rfl⟩
        obtain ⟨rfl, rfl⟩ := Prog.traces_pure.mp htrace
        exact Prog.traces_pure.mpr ⟨rfl, rfl⟩
  | request op next ih =>
      constructor
      · intro hran
        obtain ⟨reply, rest, rfl, hrest⟩ := Prog.traces_request.mp hran
        obtain ⟨events, result, htrace, rfl, rfl⟩ := (ih reply).mp hrest
        exact ⟨⟨op, reply⟩ :: events, result, Prog.traces_request.mpr ⟨reply, events, rfl, htrace⟩, rfl,
          rfl⟩
      · rintro ⟨events, result, htrace, rfl, rfl⟩
        obtain ⟨reply, events', rfl, hrest⟩ := Prog.traces_request.mp htrace
        exact Prog.traces_request.mpr ⟨reply, _, rfl, (ih reply).mpr ⟨events', result, hrest, rfl, rfl⟩⟩

theorem ran_act {program : Update α} {state : State} {trace : List UpdaterEvent}
    {value : Except Fault (α × State)} :
    (((act program).run state).run).Traces trace value ↔
      ∃ result, Ran program state trace result ∧ value = result.mapError Fault.stuck := by
  change Prog.Traces (_ >>= _) trace value ↔ _
  rw [Prog.traces_bind]
  constructor
  · rintro ⟨first, result, second, rfl, hfirst, hsecond⟩
    obtain ⟨rfl, rfl⟩ := Prog.traces_pure.mp hsecond
    rw [List.append_nil]
    exact ⟨result, hfirst, rfl⟩
  · rintro ⟨result, hresult, rfl⟩
    exact ⟨trace, result, [], (List.append_nil _).symm, hresult, Prog.traces_pure.mpr ⟨rfl, rfl⟩⟩

end Runs

/-! ## What a trace tells -/

section Telling

/-- The bytes that a reply delivers. -/
def blockOf : (op : EdifyOp UpdaterOp) → EdifyOp.Reply UpdaterOp.Reply op → Bytes
  | .other (.sys (.read _ _ _)), reply => reply.getD []
  | _, _ => []

/-- All that was read in a run. -/
def delivered (trace : List UpdaterEvent) : Bytes :=
  trace.flatMap fun event => blockOf event.1 event.2

def noteDevice : (op : EdifyOp UpdaterOp) → EdifyOp.Reply UpdaterOp.Reply op → Ledger → Ledger
  | .other (.sys (.mtd _ op)), reply, ledger => ledger.record op reply
  | _, _, ledger => ledger

/-- What the run shows to be on the partition. -/
def verified (trace : List UpdaterEvent) : Ledger :=
  Prog.notes noteDevice trace .empty

/-- What is read is in the file. -/
def ReadsFrom (image : CString) (file : Bytes) (trace : List UpdaterEvent) : Prop :=
  ∀ offset len block, ⟨.other (.sys (.read image offset len)), some block⟩ ∈ trace →
    block <+: (file.drop offset).take len

/-- The name stands for this partition. -/
def Finds (location : CString) (partition : MtdPartition) (trace : List UpdaterEvent) : Prop :=
  ∀ found, ⟨.other (.sys (.findPartition location)), some found⟩ ∈ trace → found = partition

/-- The blocks of the file are on the partition, one behind the other. -/
def OnFlash (partition : MtdPartition) (file : Bytes) (trace : List UpdaterEvent) : Prop :=
  ∃ (chunks : List (Block partition)) (pos : Nat), Chunked file chunks ∧
    (verified trace).Holds (chunks.map Subtype.val) pos

/-- The name of the partition is returned only if the file is on it. -/
def Reports (partition : MtdPartition) (location file : Bytes) (state : State)
    (trace : List UpdaterEvent) (value : Except Fault (Option Value × State)) : Prop :=
  value = .ok (some (.string location), state) ∧ OnFlash partition file trace ∨
    value = .ok (some (.string []), state) ∨
      ∃ message, value = .ok (none, { state with errmsg := some message })

theorem delivered_device (name : CString) (events : List (Event MtdOp MtdOp.Reply)) :
    delivered (events.map (deviceEvent name)) = [] := by
  rw [delivered, List.flatMap_map]
  exact List.flatMap_eq_nil_iff.mpr fun _ _ => rfl

theorem notes_device (name : CString) (events : List (Event MtdOp MtdOp.Reply)) (ledger : Ledger) :
    Prog.notes noteDevice (events.map (deviceEvent name)) ledger =
      Prog.notes Ledger.record events ledger :=
  List.foldl_map

theorem ReadsFrom.mono {image : CString} {file : Bytes} {trace part : List UpdaterEvent}
    (hreads : ReadsFrom image file trace) (hpart : part ⊆ trace) : ReadsFrom image file part :=
  fun offset len block hmem => hreads offset len block (hpart hmem)

end Telling

/-! ## Copying -/

section Copying

variable {platform : Platform} {partition : MtdPartition} {location image : CString}
variable {file : Bytes} {chunks : List (Block partition)} {state : State}

abbrev Kept (chunks : List (Block partition)) (taken : Bytes) (ctx : MtdWriteContext)
    (ledger : Ledger) : Prop :=
  Streamed (fun done pos ledger => ledger.Holds (done.map Subtype.val) pos) chunks taken ctx ledger

/-- A block that is written whole leaves the session with its bytes. -/
theorem mtdWriteData_kept {taken block : Bytes} {ctx : MtdWriteContext} {ledger : Ledger}
    {events : List (Event MtdOp MtdOp.Reply)} {result : Int × MtdWriteContext}
    (hkept : Kept chunks taken ctx ledger) (hblock : taken ++ block <+: blockBytes chunks)
    (htrace : (mtdWriteData partition ctx block).Traces events result)
    (hwrote : result.1 = block.length) :
    Kept chunks (taken ++ block) result.2 (Prog.notes Ledger.record events ledger) := by
  have hsafe := @WritesBlocks.mtdWriteData_safe _ _ _ _ _ _ _ ctx ledger taken block
    (fun result after => result.1 = block.length → Kept chunks (taken ++ block) result.2 after)
    (writesBlocks_records chunks) hkept hblock (fun _ _ hafter _ => hafter)
    (fun _ _ _ hresult => by dsimp only at hresult; omega)
  exact hsafe.of_traces htrace hwrote

/-- What the copy loop has done: as long as every block was written whole, the session has all
that was read. -/
def Copied (chunks : List (Block partition)) (file : Bytes) (state : State) (taken : Bytes)
    (ledger : Ledger) (trace : List UpdaterEvent)
    (value : Except Stuck ((Bool × MtdWriteContext) × State)) : Prop :=
  ∃ success ctx, value = .ok ((success, ctx), state) ∧ taken ++ delivered trace <+: file ∧
    (success = true →
      Kept chunks (taken ++ delivered trace) ctx (Prog.notes noteDevice trace ledger))

theorem Copied.ended {taken : Bytes} {ctx : MtdWriteContext} {ledger : Ledger} (success : Bool)
    (hkept : success = true → Kept chunks taken ctx ledger) (hfile : taken <+: file) :
    Copied chunks file state taken ledger [] (.ok ((success, ctx), state)) := by
  refine ⟨success, ctx, rfl, ?_, ?_⟩
  · rwa [delivered, List.flatMap_nil, List.append_nil]
  · rwa [delivered, List.flatMap_nil, List.append_nil]

theorem delivered_append (first second : List UpdaterEvent) :
    delivered (first ++ second) = delivered first ++ delivered second :=
  List.flatMap_append

/-- A read, and what is done with its block, come before the rest of the loop. -/
theorem Copied.after {taken block : Bytes} {ledger : Ledger} {offset : Nat} {reply : Option Bytes}
    {events : List (Event MtdOp MtdOp.Reply)} {trace : List UpdaterEvent}
    {value : Except Stuck ((Bool × MtdWriteContext) × State)} (hreply : reply.getD [] = block)
    (hcopied : Copied chunks file state (taken ++ block) (Prog.notes Ledger.record events ledger)
      trace value) :
    Copied chunks file state taken ledger ([⟨.other (.sys (.read image offset bufsiz)), reply⟩] ++
      (events.map (deviceEvent location) ++ trace)) value := by
  have hread : delivered [⟨.other (.sys (.read image offset bufsiz)), reply⟩] = block := by
    change reply.getD [] ++ [] = block
    rw [List.append_nil, hreply]
  rw [Copied, delivered_append, delivered_append, hread, delivered_device, List.nil_append,
    ← List.append_assoc, Prog.notes_append, Prog.notes_append, notes_device]
  exact hcopied

theorem copyImage_ran {rounds offset : Nat} {taken rest : Bytes} {ctx : MtdWriteContext}
    {ledger : Ledger} {trace : List UpdaterEvent}
    {value : Except Stuck ((Bool × MtdWriteContext) × State)}
    (hchunks : file <+: blockBytes chunks) (hkept : Kept chunks taken ctx ledger)
    (hfile : file = taken ++ rest) (hoffset : offset = taken.length) (hrounds : rest.length < rounds)
    (hreads : ReadsFrom image file trace)
    (hran : Ran (copyImage location image partition rounds offset ctx) state trace value) :
    Copied chunks file state taken ledger trace value := by
  induction rounds generalizing offset taken rest ctx ledger trace with
  | zero => exact absurd hrounds (Nat.not_lt_zero _)
  | succ rounds ih =>
      rcases ran_bind.mp hran with ⟨error, herror, -⟩ | ⟨first, reply, _, second, rfl, hread, hsecond⟩
      · obtain ⟨_, -, herror⟩ := ran_sys.mp herror
        cases herror
      · obtain ⟨_, rfl, hreply⟩ := ran_sys.mp hread
        cases hreply
        have hend (hpure : Ran (pure (true, ctx)) state second value) (hnone : reply.getD [] = []) :
            Copied chunks file state taken ledger
              ([⟨.other (.sys (.read image offset bufsiz)), reply⟩] ++ second) value := by
          obtain ⟨rfl, rfl⟩ := ran_pure.mp hpure
          have hended : Copied chunks file state (taken ++ []) ledger [] (.ok ((true, ctx), state)) := by
            rw [List.append_nil]
            exact .ended true (fun _ => hkept) ⟨rest, hfile.symm⟩
          exact @Copied.after _ location image _ _ _ _ _ _ _ _ [] _ _ hnone hended
        match reply with
        | none => exact hend hsecond rfl
        | some [] => exact hend hsecond rfl
        | some (byte :: block) =>
            rcases ran_bind.mp hsecond with
              ⟨error, herror, -⟩ | ⟨wrote, result, _, last, rfl, hwrote, hlast⟩
            · obtain ⟨_, _, -, -, herror⟩ := ran_onPartition.mp herror
              cases herror
            · obtain ⟨events, _, hevents, rfl, hresult⟩ := ran_onPartition.mp hwrote
              cases hresult
              obtain ⟨tail, htail⟩ : byte :: block <+: rest := by
                have hprefix := hreads offset bufsiz (byte :: block) List.mem_cons_self
                rw [hfile, hoffset, List.drop_left] at hprefix
                exact hprefix.trans (List.take_prefix _ _)
              have hfile' : file = taken ++ (byte :: block) ++ tail := by
                rw [hfile, ← htail, List.append_assoc]
              have hblock : taken ++ (byte :: block) <+: file := ⟨tail, hfile'.symm⟩
              refine .after rfl ?_
              change Ran (if _ then _ else _) state last value at hlast
              split at hlast
              · rename_i hlength
                have hkept' := mtdWriteData_kept hkept (hblock.trans hchunks) hevents hlength
                have hlast' : ReadsFrom image file last := hreads.mono fun event hmem =>
                  List.mem_append_right _ (List.mem_append_right _ hmem)
                have hshort : tail.length < rounds := by
                  rw [← htail, List.length_append, List.length_cons] at hrounds
                  omega
                have hnext : offset + (byte :: block).length = (taken ++ (byte :: block)).length := by
                  rw [hoffset, List.length_append]
                exact ih hkept' hfile' hnext hshort hlast' hlast
              · obtain ⟨rfl, rfl⟩ := ran_pure.mp hlast
                exact .ended false Bool.false_ne_true.elim hblock

end Copying

/-! ## Closing -/

section Closing

variable {partition : MtdPartition} {file taken : Bytes} {chunks blocks : List (Block partition)}
variable {ctx : MtdWriteContext} {ledger : Ledger}

theorem chunked_unique (hchunks : Chunked file chunks) (hblocks : Chunked file blocks) :
    chunks = blocks := by
  obtain ⟨pad, hpad, hchunks⟩ := hchunks
  obtain ⟨fill, hfill, hblocks⟩ := hblocks
  have hfirst := congrArg List.length hchunks
  have hsecond := congrArg List.length hblocks
  rw [blockBytes_length, List.length_append, List.length_replicate] at hfirst hsecond
  have hle : ∀ {a b : Nat}, a * partition.eraseSize < b * partition.eraseSize + partition.eraseSize →
      a ≤ b := by
    intro a b hlt
    rw [← Nat.succ_mul] at hlt
    exact Nat.lt_succ_iff.mp (Nat.lt_of_mul_lt_mul_right hlt)
  have hlength : chunks.length = blocks.length := le_antisymm (hle (by omega)) (hle (by omega))
  rw [hlength] at hfirst
  obtain rfl : pad = fill := by omega
  exact blockBytes_injective (hchunks.trans hblocks.symm)

/-- Padded with zeros the two are the same blocks. -/
def SameBlocks (partition : MtdPartition) (taken file : Bytes) : Prop :=
  ∃ chunks : List (Block partition), Chunked taken chunks ∧ Chunked file chunks

/-- The pending bytes with the blocks before them. -/
theorem chunked_padded (hchunks : taken = blockBytes chunks ++ ctx.stored)
    (hstored : ctx.stored.length < partition.eraseSize) :
    ∃ blocks : List (Block partition), Chunked taken blocks ∧
      blocks.map Subtype.val = chunks.map Subtype.val ++ padded partition ctx.stored := by
  by_cases hnil : ctx.stored = []
  · refine ⟨chunks, ⟨0, partition.eraseSize_pos, ?_⟩, ?_⟩
    · rw [hchunks, hnil, List.append_nil, List.replicate_zero, List.append_nil]
    · rw [padded, if_pos hnil, List.append_nil]
  · have hlength := List.length_pos_of_ne_nil hnil
    have hblock : (ctx.stored ++ List.replicate (partition.eraseSize - ctx.stored.length)
        (0 : UInt8)).length = partition.eraseSize := by
      rw [List.length_append, List.length_replicate]
      omega
    refine ⟨chunks ++ [⟨_, hblock⟩], ⟨partition.eraseSize - ctx.stored.length, by omega, ?_⟩, ?_⟩
    · rw [blockBytes_append, hchunks, List.append_assoc]
      exact congrArg (blockBytes chunks ++ ·) (List.append_nil _)
    · rw [List.map_append, padded, if_neg hnil]
      rfl

/-- The two calls that close the session verify all that it took, unless both fail. -/
theorem closing_kept {erased closed : List (Event MtdOp MtdOp.Reply)} {first : Int × MtdWriteContext}
    {second : Int} (hkept : Kept chunks taken ctx ledger)
    (herased : (mtdEraseBlocks partition ctx (-1)).Traces erased first)
    (hclosed : (mtdWriteClose partition first.2).Traces closed second) :
    ∃ (done : List (Block partition)) (pos : Nat),
      (Prog.notes Ledger.record closed (Prog.notes Ledger.record erased ledger)).Holds
        (done.map Subtype.val) pos ∧
      (¬(first.1 = -1 ∧ second = -1) ∧ Chunked taken done ∨
        first.1 = -1 ∧ second = -1 ∧ ∃ stored ≠ [], taken = blockBytes done ++ stored) := by
  obtain ⟨done, hholds, -, htaken, hstored⟩ := hkept
  obtain ⟨blocks, hblocks, hmap⟩ := chunked_padded htaken hstored
  obtain ⟨code, ctx'⟩ := first
  have hopen := Prog.Safe.of_traces (mtdEraseBlocks_records hholds (by decide)) herased
  rcases hopen with ⟨hcode, hleft, hopen⟩ | ⟨rfl, hne, hleft, hopen⟩
  · obtain ⟨pos, left, hclose⟩ := Prog.Safe.of_traces (mtdWriteClose_records hopen) hclosed
    rcases hclose with ⟨-, -, hclose⟩ | ⟨-, hne, -⟩
    · dsimp only at hleft
      rw [hleft, ← hmap, padded, if_pos rfl, List.append_nil] at hclose
      exact ⟨blocks, pos, hclose, .inl ⟨fun hboth => hcode hboth.1, hblocks⟩⟩
    · exact absurd hleft hne
  · obtain ⟨pos, left, hclose⟩ := Prog.Safe.of_traces (mtdWriteClose_records hopen) hclosed
    rcases hclose with ⟨hsecond, -, hclose⟩ | ⟨hsecond, -, -, hclose⟩
    · dsimp only at hleft
      rw [hleft, ← hmap] at hclose
      exact ⟨blocks, pos, hclose, .inl ⟨fun hboth => hsecond hboth.2, hblocks⟩⟩
    · exact ⟨done, pos, hclose, .inr ⟨rfl, hsecond, ctx.stored, hne, htaken⟩⟩

/-- A part of a file that ends behind the blocks is no padding of theirs. -/
theorem not_chunked_of_longer {stored : Bytes} (hstored : stored ≠ [])
    (hfile : blockBytes chunks ++ stored <+: file) : ¬Chunked file chunks := by
  rintro ⟨pad, -, hchunks⟩
  have hlonger := hfile.length_le
  have hlength := congrArg List.length hchunks
  have hpos := List.length_pos_of_ne_nil hstored
  rw [List.length_append] at hlonger hlength
  omega

end Closing

/-! ## The call -/

section Call

variable {platform : Platform} {partition : MtdPartition} {name location filename file : Bytes}
variable {state : State} {trace : List UpdaterEvent}

/-- The requests before the copying. -/
def opening (partition : MtdPartition) (location filename : Bytes) (count : Int) :
    List UpdaterEvent :=
  [⟨.other (.sys .scanPartitions), count⟩,
    ⟨.other (.sys (.findPartition (pathOf location))), some partition⟩,
    ⟨.other (.sys (.openPartition (pathOf location))), true⟩,
    ⟨.other (.sys (.openRead (pathOf filename))), true⟩]

/-- A run that copies, and closes with these results. -/
def ImageRun (platform : Platform) (partition : MtdPartition) (location filename : Bytes)
    (state : State) (trace copied : List UpdaterEvent) (success : Bool) (erasing closing : Int) :
    Prop :=
  ∃ (count : Int) (ctx ctx' : MtdWriteContext) (erased closed : List (Event MtdOp MtdOp.Reply)),
    trace = opening partition location filename count ++ (copied ++
      (erased.map (deviceEvent (pathOf location)) ++ closed.map (deviceEvent (pathOf location)))) ∧
    Ran (copyImage (pathOf location) (pathOf filename) partition platform.rounds 0 mtdWritePartition)
      state copied (.ok ((success, ctx), state)) ∧
    (mtdEraseBlocks partition ctx (-1)).Traces erased (erasing, ctx') ∧
    (mtdWriteClose partition ctx').Traces closed closing

/-- Every block that was read was written, but the reading ended early, or neither of the calls
that close the session could write what was pending. -/
def Unreported (platform : Platform) (partition : MtdPartition) (location filename file : Bytes)
    (state : State) (trace : List UpdaterEvent) : Prop :=
  ∃ copied erasing closing,
    ImageRun platform partition location filename state trace copied true erasing closing ∧
      (¬SameBlocks partition (delivered copied) file ∨ erasing = -1 ∧ closing = -1)

theorem ImageRun.onFlash_iff {copied : List UpdaterEvent} {erasing closing : Int}
    (hrun : ImageRun platform partition location filename state trace copied true erasing closing)
    (hrounds : file.length < platform.rounds) (hreads : ReadsFrom (pathOf filename) file trace) :
    OnFlash partition file trace ↔
      SameBlocks partition (delivered copied) file ∧ ¬(erasing = -1 ∧ closing = -1) := by
  obtain ⟨count, ctx, ctx', erased, closed, rfl, hcopy, herased, hclosed⟩ := hrun
  obtain ⟨chunks, pad, -, hchunks⟩ := exists_chunked partition file
  have hstart : Kept chunks [] mtdWritePartition .empty := streamed_start (Ledger.holds_empty 0)
  have hcopied := hreads.mono fun event (hmem : event ∈ copied) =>
    List.mem_append_right _ (List.mem_append_left _ hmem)
  obtain ⟨_, _, hvalue, hprefix, hkept⟩ := copyImage_ran ⟨_, hchunks.symm⟩ hstart
    (List.nil_append file).symm rfl hrounds hcopied hcopy
  cases hvalue
  rw [List.nil_append] at hprefix hkept
  obtain ⟨done, pos, hholds, hdone⟩ := closing_kept (hkept rfl) herased hclosed
  have hverified : verified (opening partition location filename count ++ (copied ++
      (erased.map (deviceEvent (pathOf location)) ++
        closed.map (deviceEvent (pathOf location))))) =
      Prog.notes Ledger.record closed
        (Prog.notes Ledger.record erased (Prog.notes noteDevice copied .empty)) := by
    rw [verified, Prog.notes_append, Prog.notes_append, Prog.notes_append, notes_device,
      notes_device]
    rfl
  rw [← hverified] at hholds
  constructor
  · rintro ⟨blocks, _, hfile, hblocks⟩
    obtain rfl : blocks = done := List.map_injective_iff.mpr Subtype.val_injective
      (hblocks.data_eq.symm.trans hholds.data_eq)
    rcases hdone with ⟨hboth, htaken⟩ | ⟨-, -, stored, hne, htaken⟩
    · exact ⟨⟨blocks, htaken, hfile⟩, hboth⟩
    · exact absurd hfile (not_chunked_of_longer hne (htaken ▸ hprefix))
  · rintro ⟨⟨blocks, htaken, hfile⟩, hboth⟩
    rcases hdone with ⟨-, hdone⟩ | ⟨herasing, hclosing, -⟩
    · obtain rfl := chunked_unique htaken hdone
      exact ⟨blocks, pos, hfile, hholds⟩
    · exact absurd ⟨herasing, hclosing⟩ hboth

/-- The part of the call after the arguments. -/
theorem ran_writeRawImageFn {value : Except Fault (Option Value × State)} :
    (((writeRawImageFn platform name [textArg filename, textArg location]).run state).run).Traces
        trace value ↔
      ∃ result, Ran (if location = [] then cantBeEmpty "partition" name
        else if filename = [] then cantBeEmpty "file" name
        else do
          match ← liftSys (openMtd (pathOf location)) with
          | none => stringValue []
          | some partition =>
              if ← writeRaw platform (pathOf location) (pathOf filename) partition then
                stringValue location
              else stringValue []) state trace result ∧ value = result.mapError Fault.stuck :=
  ran_act

theorem ran_openMtd {name : CString} {value : Except Stuck (Option MtdPartition × State)} :
    Ran (liftSys (openMtd name)) state trace value ↔
      ∃ count : Int, trace = [⟨.other (.sys .scanPartitions), count⟩,
          ⟨.other (.sys (.findPartition name)), none⟩] ∧ value = .ok (none, state) ∨
        ∃ partition opened, trace = [⟨.other (.sys .scanPartitions), count⟩,
            ⟨.other (.sys (.findPartition name)), some partition⟩,
            ⟨.other (.sys (.openPartition name)), opened⟩] ∧
          value = .ok (if opened then some partition else none, state) := by
  constructor
  · intro hran
    obtain ⟨count, scanned, rfl, hscan⟩ := Prog.traces_request.mp hran
    obtain ⟨found, searched, rfl, hsearch⟩ := Prog.traces_request.mp hscan
    cases found with
    | none =>
        obtain ⟨rfl, rfl⟩ := Prog.traces_pure.mp hsearch
        exact ⟨count, .inl ⟨rfl, rfl⟩⟩
    | some partition =>
        obtain ⟨opened, last, rfl, hopen⟩ := Prog.traces_request.mp hsearch
        cases opened with
        | false =>
            obtain ⟨rfl, rfl⟩ := Prog.traces_pure.mp hopen
            exact ⟨count, .inr ⟨partition, false, rfl, rfl⟩⟩
        | true =>
            obtain ⟨rfl, rfl⟩ := Prog.traces_pure.mp hopen
            exact ⟨count, .inr ⟨partition, true, rfl, rfl⟩⟩
  · rintro ⟨count, ⟨rfl, rfl⟩ | ⟨partition, opened, rfl, rfl⟩⟩
    · exact Prog.traces_request.mpr ⟨count, _, rfl, Prog.traces_request.mpr ⟨none, _, rfl,
        Prog.traces_pure.mpr ⟨rfl, rfl⟩⟩⟩
    · refine Prog.traces_request.mpr ⟨count, _, rfl, Prog.traces_request.mpr ⟨some partition, _, rfl,
        Prog.traces_request.mpr ⟨opened, _, rfl, ?_⟩⟩⟩
      cases opened with
      | false => exact Prog.traces_pure.mpr ⟨rfl, rfl⟩
      | true => exact Prog.traces_pure.mpr ⟨rfl, rfl⟩

/-- What the copying and the closing come to. -/
theorem ran_writeRaw {success : Bool} {copied : List UpdaterEvent} {ctx ctx' : MtdWriteContext}
    {erased closed : List (Event MtdOp MtdOp.Reply)} {erasing closing : Int} {image : CString}
    {device : CString}
    (hcopy : Ran (copyImage device image partition platform.rounds 0 mtdWritePartition) state copied
      (.ok ((success, ctx), state)))
    (herased : (mtdEraseBlocks partition ctx (-1)).Traces erased (erasing, ctx'))
    (hclosed : (mtdWriteClose partition ctx').Traces closed closing) :
    Ran (writeRaw platform device image partition) state
      (⟨.other (.sys (.openRead image)), true⟩ :: (copied ++
        (erased.map (deviceEvent device) ++ closed.map (deviceEvent device)))) (.ok (success, state)) := by
  refine ran_bind.mpr (.inr ⟨[⟨.other (.sys (.openRead image)), true⟩], true, state, _, rfl,
    ran_sys.mpr ⟨true, rfl, rfl⟩, ?_⟩)
  refine ran_bind.mpr (.inr ⟨copied, (success, ctx), state, _, rfl, hcopy, ?_⟩)
  refine ran_bind.mpr (.inr ⟨_, (erasing, ctx'), state, _, rfl,
    ran_onPartition.mpr ⟨erased, _, herased, rfl, rfl⟩, ?_⟩)
  exact ran_bind.mpr (.inr ⟨_, closing, state, [], (List.append_nil _).symm,
    ran_onPartition.mpr ⟨closed, _, hclosed, rfl, rfl⟩, ran_pure.mpr ⟨rfl, rfl⟩⟩)

theorem ImageRun.traces {copied : List UpdaterEvent} {success : Bool} {erasing closing : Int}
    (hrun : ImageRun platform partition location filename state trace copied success erasing closing)
    (hlocation : location ≠ []) (hfilename : filename ≠ []) :
    (((writeRawImageFn platform name [textArg filename, textArg location]).run state).run).Traces
      trace (.ok (some (.string (if success then location else [])), state)) := by
  obtain ⟨count, ctx, ctx', erased, closed, rfl, hcopy, herased, hclosed⟩ := hrun
  refine (ran_writeRawImageFn).mpr ⟨.ok (some (.string (if success then location else [])), state),
    ?_, rfl⟩
  rw [if_neg hlocation, if_neg hfilename]
  refine ran_bind.mpr (.inr ⟨(opening partition location filename count).take 3, some partition,
    state, _, rfl, (ran_openMtd).mpr ⟨count, .inr ⟨partition, true, rfl, rfl⟩⟩, ?_⟩)
  refine ran_bind.mpr (.inr ⟨_, success, state, [], (List.append_nil _).symm,
    ran_writeRaw hcopy herased hclosed, ?_⟩)
  cases success with
  | false => exact ran_pure.mpr ⟨rfl, rfl⟩
  | true => exact ran_pure.mpr ⟨rfl, rfl⟩

theorem writeRaw_cases {device image : CString} {value : Except Stuck (Bool × State)}
    (hrounds : file.length < platform.rounds) (hreads : ReadsFrom image file trace)
    (hran : Ran (writeRaw platform device image partition) state trace value) :
    value = .ok (false, state) ∨
      ∃ (copied : List UpdaterEvent) (success : Bool) (erasing closing : Int)
        (ctx ctx' : MtdWriteContext) (erased closed : List (Event MtdOp MtdOp.Reply)),
        trace = ⟨.other (.sys (.openRead image)), true⟩ :: (copied ++
          (erased.map (deviceEvent device) ++ closed.map (deviceEvent device))) ∧
        Ran (copyImage device image partition platform.rounds 0 mtdWritePartition) state copied
          (.ok ((success, ctx), state)) ∧
        (mtdEraseBlocks partition ctx (-1)).Traces erased (erasing, ctx') ∧
        (mtdWriteClose partition ctx').Traces closed closing ∧ value = .ok (success, state) := by
  rcases ran_bind.mp hran with ⟨error, herror, -⟩ | ⟨_, opened, _, rest, rfl, hopen, hrest⟩
  · obtain ⟨_, -, herror⟩ := ran_sys.mp herror
    cases herror
  obtain ⟨_, rfl, hopened⟩ := ran_sys.mp hopen
  cases hopened
  cases opened with
  | false =>
      obtain ⟨-, rfl⟩ := ran_pure.mp hrest
      exact .inl rfl
  | true =>
      obtain ⟨chunks, pad, -, hchunks⟩ := exists_chunked partition file
      have hstart : Kept chunks [] mtdWritePartition .empty := streamed_start (Ledger.holds_empty 0)
      have hcopies {copied : List UpdaterEvent} {outcome : Except Stuck ((Bool × MtdWriteContext) × State)}
          (hmem : copied ⊆ rest) (hcopy : Ran (copyImage device image partition platform.rounds 0
            mtdWritePartition) state copied outcome) :
          ∃ success ctx, outcome = .ok ((success, ctx), state) := by
        obtain ⟨success, ctx, hvalue, -⟩ := copyImage_ran ⟨_, hchunks.symm⟩ hstart
          (List.nil_append file).symm rfl hrounds
          (hreads.mono (List.Subset.trans hmem (List.subset_append_right _ _))) hcopy
        exact ⟨success, ctx, hvalue⟩
      rcases ran_bind.mp hrest with ⟨error, herror, -⟩ | ⟨copied, result, _, rest, rfl, hcopy, hrest⟩
      · obtain ⟨_, _, herror⟩ := hcopies (List.Subset.refl _) herror
        cases herror
      obtain ⟨success, ctx, hresult⟩ := hcopies (List.subset_append_left _ _) hcopy
      cases hresult
      rcases ran_bind.mp hrest with ⟨error, herror, -⟩ | ⟨_, result, _, rest, rfl, herase, hrest⟩
      · obtain ⟨_, _, -, -, herror⟩ := ran_onPartition.mp herror
        cases herror
      obtain ⟨erased, ⟨erasing, ctx'⟩, herased, rfl, hresult⟩ := ran_onPartition.mp herase
      cases hresult
      rcases ran_bind.mp hrest with ⟨error, herror, -⟩ | ⟨_, closing, _, rest, rfl, hclose, hrest⟩
      · obtain ⟨_, _, -, -, herror⟩ := ran_onPartition.mp herror
        cases herror
      obtain ⟨closed, _, hclosed, rfl, hresult⟩ := ran_onPartition.mp hclose
      cases hresult
      obtain ⟨rfl, rfl⟩ := ran_pure.mp hrest
      refine .inr ⟨copied, success, erasing, closing, ctx, ctx', erased, closed, ?_, hcopy, herased,
        hclosed, rfl⟩
      rw [List.append_nil]
      rfl

/-- How a call can end. -/
theorem writeRawImageFn_cases {value : Except Fault (Option Value × State)}
    (hrounds : file.length < platform.rounds) (hreads : ReadsFrom (pathOf filename) file trace)
    (hran : (((writeRawImageFn platform name
      [textArg filename, textArg location]).run state).run).Traces trace value) :
    (trace = [] ∧ ∃ message, value = .ok (none, { state with errmsg := some message })) ∨
      location ≠ [] ∧ filename ≠ [] ∧ (value = .ok (some (.string []), state) ∨
        ∃ partition copied success erasing closing,
          ImageRun platform partition location filename state trace copied success erasing closing ∧
            value = .ok (some (.string (if success then location else [])), state)) := by
  obtain ⟨result, hcall, rfl⟩ := (ran_writeRawImageFn).mp hran
  by_cases hlocation : location = []
  · rw [if_pos hlocation] at hcall
    obtain ⟨rfl, rfl⟩ := Prog.traces_pure.mp hcall
    exact .inl ⟨rfl, _, rfl⟩
  by_cases hfilename : filename = []
  · rw [if_neg hlocation, if_pos hfilename] at hcall
    obtain ⟨rfl, rfl⟩ := Prog.traces_pure.mp hcall
    exact .inl ⟨rfl, _, rfl⟩
  rw [if_neg hlocation, if_neg hfilename] at hcall
  refine .inr ⟨hlocation, hfilename, ?_⟩
  rcases ran_bind.mp hcall with ⟨error, herror, -⟩ | ⟨first, found, _, rest, rfl, hopen, hrest⟩
  · obtain ⟨_, ⟨-, herror⟩ | ⟨_, _, -, herror⟩⟩ := (ran_openMtd).mp herror
    · cases herror
    · cases herror
  obtain ⟨count, ⟨-, hfound⟩ | ⟨partition, opened, rfl, hfound⟩⟩ := (ran_openMtd).mp hopen
  · cases hfound
    obtain ⟨-, rfl⟩ := ran_pure.mp hrest
    exact .inl rfl
  cases opened with
  | false =>
      cases hfound
      obtain ⟨-, rfl⟩ := ran_pure.mp hrest
      exact .inl rfl
  | true =>
      cases hfound
      rcases ran_bind.mp hrest with ⟨error, herror, -⟩ | ⟨written, success, _, last, rfl, hwrite, hlast⟩
      · rcases writeRaw_cases hrounds (hreads.mono (List.subset_append_right _ _)) herror with
          herror | ⟨_, _, _, _, _, _, _, _, -, -, -, -, herror⟩
        · cases herror
        · cases herror
      have hwritten := hreads.mono (List.Subset.trans (List.subset_append_left written last)
        (List.subset_append_right _ _))
      rcases writeRaw_cases hrounds hwritten hwrite with hsuccess | ⟨copied, success, erasing,
        closing, ctx, ctx', erased, closed, rfl, hcopy, herased, hclosed, hsuccess⟩
      · cases hsuccess
        obtain ⟨-, rfl⟩ := ran_pure.mp hlast
        exact .inl rfl
      · cases hsuccess
        have hvalue : last = [] ∧
            result = .ok (some (.string (if success then location else [])), state) := by
          cases success with
          | false => exact ran_pure.mp hlast
          | true => exact ran_pure.mp hlast
        obtain ⟨rfl, rfl⟩ := hvalue
        refine .inr ⟨partition, copied, success, erasing, closing,
          ⟨count, ctx, ctx', erased, closed, ?_, hcopy, herased, hclosed⟩, rfl⟩
        rw [List.append_nil]
        rfl

/-- The call reports what is on the partition, unless what was read or was pending got lost. -/
theorem write_raw_image_reports_iff {value : Except Fault (Option Value × State)}
    (hrounds : file.length < platform.rounds) (hreads : ReadsFrom (pathOf filename) file trace)
    (hfinds : Finds (pathOf location) partition trace)
    (hran : (((writeRawImageFn platform name
      [textArg filename, textArg location]).run state).run).Traces trace value) :
    Reports partition location file state trace value ↔
      ¬Unreported platform partition location filename file state trace := by
  rcases writeRawImageFn_cases hrounds hreads hran with
    ⟨rfl, habort⟩ | ⟨hlocation, hfilename, hvalue⟩
  · refine iff_of_true (.inr (.inr habort)) ?_
    rintro ⟨_, _, _, ⟨_, _, _, _, _, hnil, -⟩, -⟩
    cases hnil
  constructor
  · rintro hreports ⟨copied, erasing, closing, hrun, hlost⟩
    have hresult := hran.unique (hrun.traces hlocation hfilename)
    rw [if_pos rfl] at hresult
    have hflash : ¬OnFlash partition file trace := by
      rw [hrun.onFlash_iff hrounds hreads, not_and_or, not_not]
      exact hlost
    rcases hreports with ⟨-, honflash⟩ | hempty | ⟨message, habort⟩
    · exact hflash honflash
    · rw [hresult] at hempty
      cases hempty
      exact hlocation rfl
    · rw [hresult] at habort
      cases habort
  · intro hreported
    rcases hvalue with hvalue | ⟨found, copied, success, erasing, closing, hrun, hvalue⟩
    · exact .inr (.inl hvalue)
    cases success with
    | false => exact .inr (.inl hvalue)
    | true =>
        obtain rfl : found = partition := by
          obtain ⟨_, _, _, _, _, rfl, -⟩ := hrun
          exact hfinds found (List.mem_append_left _ (List.mem_cons_of_mem _ List.mem_cons_self))
        refine .inl ⟨hvalue, (hrun.onFlash_iff hrounds hreads).mpr ?_⟩
        rw [← not_not (a := SameBlocks _ _ _), ← not_or]
        exact fun hlost => hreported ⟨copied, erasing, closing, hrun, hlost⟩

end Call

/-! ## A partition of one block -/

section Sample

theorem smallPartition_pos : 0 < 4 := by decide

theorem smallPartition_lt : 4 < 2 ^ 31 := by decide

def smallPartition : MtdPartition := ⟨4, 4, smallPartition_pos, smallPartition_lt⟩

/-- A system with a file of two bytes, on whose device blocks can be erased or not. -/
def imageReply (erases : Bool) : (op : EdifyOp UpdaterOp) → EdifyOp.Reply UpdaterOp.Reply op
  | .other (.sys (.findPartition _)) => some smallPartition
  | .other (.sys (.openPartition _)) => true
  | .other (.sys (.openRead _)) => true
  | .other (.sys (.read _ offset len)) => some ((([1, 2] : Bytes).drop offset).take len)
  | .other (.sys (.mtd _ .eccGetStats)) => some 0
  | .other (.sys (.mtd _ (.read _))) => some [1, 2, 0, 0]
  | .other (.sys (.mtd _ (.memGetBadBlock _))) => (0 : Int)
  | .other (.sys (.mtd _ (.memErase _))) => erases
  | .other (.sys (.mtd _ (.write _ _))) => true
  | op => (quietHandle sampleEnv op emptyWorld).1

/-- `write_raw_image("b", "m")`. -/
def imageRun (erases : Bool) : List UpdaterEvent × Except Fault (Option Value × State) :=
  (((writeRawImageFn { samplePlatform with rounds := 3 } (ascii "write_raw_image")
    [textArg (ascii "b"), textArg (ascii "m")]).run sampleState).run).answers (imageReply erases)

theorem imageRun_reads (erases : Bool) :
    ReadsFrom (pathOf (ascii "b")) [1, 2] (imageRun erases).1 := by
  intro offset len block hmem
  have hreply := Prog.reply_of_mem_answers hmem
  obtain rfl := Option.some.inj hreply
  exact List.prefix_refl _

theorem imageRun_finds (erases : Bool) :
    Finds (pathOf (ascii "m")) smallPartition (imageRun erases).1 :=
  fun _ hmem => Option.some.inj (Prog.reply_of_mem_answers hmem)

theorem write_raw_image_reports_iff_small :
    ¬Unreported { samplePlatform with rounds := 3 } smallPartition (ascii "m") (ascii "b") [1, 2]
      sampleState (imageRun true).1 :=
  (write_raw_image_reports_iff (by decide) (imageRun_reads true) (imageRun_finds true)
    (Prog.traces_answers _ _)).mp
    (.inl ⟨rfl, [⟨[1, 2, 0, 0], rfl⟩], 1, ⟨2, by decide, rfl⟩, rfl, rfl, by decide, by decide⟩)

/-- On a device whose block cannot be erased nothing is written, and the name is returned. -/
theorem write_raw_image_lost :
    ReadsFrom (pathOf (ascii "b")) [1, 2] (imageRun false).1 ∧
      (imageRun false).2 = .ok (some (.string (ascii "m")), sampleState) ∧
      ¬Reports smallPartition (ascii "m") [1, 2] sampleState (imageRun false).1 (imageRun false).2 := by
  have hvalue : (imageRun false).2 = .ok (some (.string (ascii "m")), sampleState) := rfl
  refine ⟨imageRun_reads false, hvalue, ?_⟩
  rintro (⟨-, chunks, pos, ⟨pad, -, hchunks⟩, hholds⟩ | hempty | ⟨message, habort⟩)
  · have hnil : chunks.map Subtype.val = [] := hholds.data_eq.symm
    obtain rfl := List.map_eq_nil_iff.mp hnil
    cases hchunks
  · rw [hvalue] at hempty
    cases hempty
  · rw [hvalue] at habort
    cases habort

end Sample

end OpenRecovery.Edify
