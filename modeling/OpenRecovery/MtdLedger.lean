import OpenRecovery.MtdFaults
import OpenRecovery.Traces
import Mathlib

/-!
# What a run shows to be on a partition

The device may answer a request in any way.  What is known to be on it are the blocks that
were read back right after they had been written, as they had been written, and that no
later request has touched.  Such a list is kept along a run of the writer.
-/

namespace OpenRecovery.Effects

/-- The machine that gives any reply and takes notes. -/
def Machine.recording {Op : Type} {Reply : Op → Type} {σ : Type}
    (note : (op : Op) → Reply op → σ → σ) : Machine Op Reply σ where
  step op before reply after := after = note op reply before
  torn _ _ _ := False

namespace Prog

variable {Op : Type} {Reply : Op → Type} {α β σ : Type} {note : (op : Op) → Reply op → σ → σ}

/-- The notes taken along a trace. -/
def notes (note : (op : Op) → Reply op → σ → σ) (events : List (Event Op Reply)) (state : σ) : σ :=
  events.foldl (fun state event => note event.1 event.2 state) state

theorem notes_append (first second : List (Event Op Reply)) (state : σ) :
    notes note (first ++ second) state = notes note second (notes note first state) :=
  List.foldl_append

theorem Traces.reaches
    {program : Prog Op Reply α} {events : List (Event Op Reply)} {value : α}
    (htrace : program.Traces events value) (state : σ) :
    program.Reaches (Machine.recording note) state (some value) (notes note events state) := by
  induction htrace generalizing state with
  | returned value => exact .returned value state
  | asked reply hrest ih => exact .step rfl (ih _)

theorem safe_recording_bind
    {post : β → σ → Prop} {op : Op} {rest : Reply op → Prog Op Reply β} {state : σ} :
    (Prog.ask op >>= rest).Safe (Machine.recording note) post (fun _ => True) state ↔
      ∀ reply, (rest reply).Safe (Machine.recording note) post (fun _ => True)
        (note op reply state) := by
  constructor
  · rintro ⟨-, -, hnext⟩ reply
    exact hnext reply _ rfl
  · intro hnext
    refine ⟨trivial, fun _ => False.elim, ?_⟩
    rintro reply after rfl
    exact hnext reply

/-- What holds after every safe run holds after a trace. -/
theorem Safe.of_traces
    {program : Prog Op Reply α} {events : List (Event Op Reply)} {value : α} {state : σ}
    {post : α → σ → Prop}
    (hsafe : program.Safe (Machine.recording note) post (fun _ => True) state)
    (htrace : program.Traces events value) : post value (notes note events state) :=
  hsafe.of_reaches (htrace.reaches state)

end Prog

end OpenRecovery.Effects

namespace OpenRecovery.Mtd

open Effects

/-- The block that the last request wrote, and the blocks that were verified. -/
structure Ledger where
  pending : Option (Nat × Bytes)
  kept : List (Nat × Bytes)

namespace Ledger

def empty : Ledger := ⟨none, []⟩

/-- A request that changes a block. -/
def touch (pos : Nat) (pending : Option (Nat × Bytes)) (ledger : Ledger) : Ledger :=
  ⟨pending, ledger.kept.filter fun entry => entry.1 ≠ pos⟩

/-- A block that was just written is verified if it is read back. -/
def confirm (pos : Nat) (reply : Option Bytes) (ledger : Ledger) : Ledger :=
  ⟨none, ledger.kept ++
    ledger.pending.toList.filter fun entry => entry.1 = pos ∧ some entry.2 = reply⟩

def record : (op : MtdOp) → op.Reply → Ledger → Ledger
  | .eccGetStats, _, ledger => { ledger with pending := none }
  | .read pos, reply, ledger => ledger.confirm pos reply
  | .memGetBadBlock _, _, ledger => { ledger with pending := none }
  | .memErase pos, _, ledger => ledger.touch pos none
  | .write pos data, _, ledger => ledger.touch pos (some (pos, data))

/-- These blocks were verified, one behind the other, all of them before `pos`. -/
structure Holds (blocks : List Bytes) (pos : Nat) (ledger : Ledger) : Prop where
  pending_eq : ledger.pending = none
  data_eq : ledger.kept.map Prod.snd = blocks
  before : ∀ entry ∈ ledger.kept, entry.1 < pos
  ordered : (ledger.kept.map Prod.fst).Pairwise (· < ·)

theorem holds_empty (pos : Nat) : empty.Holds [] pos :=
  ⟨rfl, rfl, nofun, .nil⟩

variable {ledger : Ledger} {blocks : List Bytes} {pos bound : Nat}

theorem Holds.mono (hholds : ledger.Holds blocks bound) (hle : bound ≤ pos) :
    ledger.Holds blocks pos :=
  ⟨hholds.pending_eq, hholds.data_eq, fun entry hentry => (hholds.before entry hentry).trans_le hle,
    hholds.ordered⟩

/-- A request further behind leaves the verified blocks alone. -/
theorem Holds.touch (hholds : ledger.Holds blocks bound) (hle : bound ≤ pos)
    (pending : Option (Nat × Bytes)) : ledger.touch pos pending = ⟨pending, ledger.kept⟩ := by
  rw [Ledger.touch, List.filter_eq_self.mpr]
  intro entry hentry
  have hlt := hholds.before entry hentry
  exact decide_eq_true (by omega)

theorem Holds.erased (hholds : ledger.Holds blocks bound) (hle : bound ≤ pos) :
    ledger.touch pos none = ledger := by
  rw [hholds.touch hle, ← hholds.pending_eq]

theorem Holds.unpend (hholds : ledger.Holds blocks bound) :
    { ledger with pending := none } = ledger := by
  rw [← hholds.pending_eq]

/-- A block that is read back otherwise than it was written. -/
theorem Holds.unconfirmed (hholds : ledger.Holds blocks bound) {data : Bytes} {reply : Option Bytes}
    (hreply : reply ≠ some data) :
    (Ledger.mk (some (pos, data)) ledger.kept).confirm pos reply = ledger := by
  have hfilter : (some (pos, data)).toList.filter
      (fun entry => decide (entry.1 = pos ∧ some entry.2 = reply)) = [] := by
    rw [List.filter_eq_nil_iff]
    intro entry hentry
    obtain rfl := List.mem_singleton.mp hentry
    simpa using hreply.symm
  rw [confirm, hfilter, List.append_nil, ← hholds.pending_eq]

theorem Holds.confirmed (hholds : ledger.Holds blocks bound) (hle : bound ≤ pos) (data : Bytes) :
    ((Ledger.mk (some (pos, data)) ledger.kept).confirm pos (some data)).Holds (blocks ++ [data])
      (pos + 1) := by
  have hkept : (Ledger.mk (some (pos, data)) ledger.kept).confirm pos (some data) =
      ⟨none, ledger.kept ++ [(pos, data)]⟩ := by
    simp [confirm]
  rw [hkept]
  refine ⟨rfl, ?_, ?_, ?_⟩
  · rw [List.map_append, hholds.data_eq]
    rfl
  · intro entry hentry
    rcases List.mem_append.mp hentry with hentry | hentry
    · have hlt := hholds.before entry hentry
      omega
    · obtain rfl := List.mem_singleton.mp hentry
      exact Nat.lt_succ_self pos
  · rw [List.map_append, List.pairwise_append]
    refine ⟨hholds.ordered, List.pairwise_singleton _ _, ?_⟩
    intro first hfirst last hlast
    obtain ⟨entry, hentry, rfl⟩ := List.mem_map.mp hfirst
    obtain rfl := List.mem_singleton.mp hlast
    exact (hholds.before entry hentry).trans_le hle

end Ledger

/-! ## The writer -/

section Writer

variable {partition : MtdPartition} {ledger : Ledger} {blocks : List Bytes} {pos bound : Nat}
variable {data : Bytes} {ctx : MtdWriteContext}

/-- Whatever the device answers, this holds when the program returns. -/
def Records {α : Type} (program : MtdProg α) (post : α → Ledger → Prop) (ledger : Ledger) : Prop :=
  program.Safe (Machine.recording Ledger.record) post (fun _ => True) ledger

theorem Records.bind {α β : Type} {program : MtdProg α} {rest : α → MtdProg β}
    {middle : α → Ledger → Prop} {post : β → Ledger → Prop}
    (hprogram : Records program middle ledger)
    (hrest : ∀ value after, middle value after → Records (rest value) post after) :
    Records (program >>= rest) post ledger :=
  (Prog.safe_bind ..).mpr (Prog.Safe.mono hprogram hrest fun _ h => h)

/-- The attempts on a block verify it or leave the ledger as it was. -/
theorem tryBlock_records (retries offset : Nat) (hholds : ledger.Holds blocks bound)
    (hbound : bound ≤ pos) (hoffset : bound ≤ offset) :
    Records (tryBlock pos data retries offset) (fun result after =>
      result.1 = true ∧ result.2 = pos + 1 ∧ after.Holds (blocks ++ [data]) (pos + 1) ∨
        result.1 = false ∧ bound ≤ result.2 ∧ after = ledger) ledger := by
  induction retries generalizing offset with
  | zero => exact ⟨.inr ⟨rfl, hoffset, rfl⟩, trivial⟩
  | succ retries ih =>
      rw [tryBlock, memErase]
      refine Prog.safe_recording_bind.mpr fun erased => ?_
      change Prog.Safe _ _ _ _ (ledger.touch pos none)
      rw [hholds.erased hbound]
      split
      · rw [writeAt]
        refine Prog.safe_recording_bind.mpr fun wrote => ?_
        change Prog.Safe _ _ _ _ (ledger.touch pos (some (pos, data)))
        rw [hholds.touch hbound, readAt]
        refine Prog.safe_recording_bind.mpr fun reply => ?_
        change Prog.Safe _ _ _ _ ((Ledger.mk (some (pos, data)) ledger.kept).confirm pos reply)
        cases reply with
        | none =>
            have hnone : (none : Option Bytes) ≠ some data := (by simp)
            rw [hholds.unconfirmed hnone]
            exact ih pos hbound
        | some verify =>
            dsimp only
            split
            · rename_i hverify
              subst hverify
              exact ⟨.inl ⟨rfl, rfl, hholds.confirmed hbound _⟩, trivial⟩
            · rename_i hverify
              rw [hholds.unconfirmed fun heq => hverify (Option.some.inj heq)]
              exact ih (pos + 1) (by omega)
      · exact ih offset hoffset

/-- The result of `write_block`. -/
def BlockWritten (blocks : List Bytes) (data : Bytes) (ctx : MtdWriteContext)
    (result : Int × MtdWriteContext) (after : Ledger) : Prop :=
  result.2.stored = ctx.stored ∧
    (result.1 = 0 ∧ after.Holds (blocks ++ [data]) result.2.pos ∨
      result.1 = -1 ∧ after.Holds blocks result.2.pos)

theorem writeBlockLoop_records (left : Nat) (hholds : ledger.Holds blocks bound)
    (hbound : bound ≤ pos) (hctx : bound ≤ ctx.pos) :
    Records (writeBlockLoop data left pos ctx) (BlockWritten blocks data ctx) ledger := by
  induction left generalizing pos ctx with
  | zero => exact ⟨⟨rfl, .inr ⟨rfl, hholds.mono hctx⟩⟩, trivial⟩
  | succ left ih =>
      rw [writeBlockLoop, memGetBadBlock]
      refine Prog.safe_recording_bind.mpr fun reply => ?_
      change Prog.Safe _ _ _ _ { ledger with pending := none }
      rw [hholds.unpend]
      split
      · exact @ih (pos + 1) (addBadBlockOffset ctx pos) (by omega) hctx
      · refine (tryBlock_records 2 ctx.pos hholds hbound hctx).bind ?_
        rintro ⟨verified, offset⟩ after (⟨rfl, rfl, hafter⟩ | ⟨rfl, hoffset, rfl⟩)
        · exact ⟨⟨rfl, .inl ⟨rfl, hafter⟩⟩, trivial⟩
        · change Records (memErase pos >>= _) _ after
          rw [memErase]
          refine Prog.safe_recording_bind.mpr fun erased => ?_
          change Prog.Safe _ _ _ _ (after.touch pos none)
          rw [hholds.erased hbound]
          exact @ih (pos + 1) (addBadBlockOffset { ctx with pos := offset } pos) (by omega) hoffset

theorem writeBlock_records (hholds : ledger.Holds blocks ctx.pos) (data : Bytes) :
    Records (writeBlock partition ctx data) (BlockWritten blocks data ctx) ledger :=
  writeBlockLoop_records _ hholds le_rfl le_rfl

/-- The blocks of a session are verified one after the other. -/
theorem writesBlocks_records (chunks : List (Block partition)) :
    WritesBlocks (Machine.recording Ledger.record) chunks
      (fun done pos ledger => ledger.Holds (done.map Subtype.val) pos) (fun _ => True)
      (fun _ => True) where
  crash_of_inv _ _ := trivial
  crash_of_failed _ := trivial
  write := by
    intro done chunk ctx ledger _ hholds
    refine Prog.Safe.mono (writeBlock_records hholds chunk.val) ?_ fun _ h => h
    rintro result after ⟨hstored, ⟨hresult, hafter⟩ | ⟨hresult, hafter⟩⟩
    · refine .inl ⟨hresult, hstored, ?_⟩
      rwa [List.map_append]
    · refine .inr ⟨?_, trivial⟩
      rw [hresult]
      decide

/-! ## Closing -/

theorem eraseLoop_records (count : Nat) (hholds : ledger.Holds blocks bound) (hbound : bound ≤ pos) :
    Records (eraseLoop count pos) (fun _ after => after = ledger) ledger := by
  induction count generalizing pos with
  | zero => exact ⟨rfl, trivial⟩
  | succ count ih =>
      rw [eraseLoop, memGetBadBlock]
      refine Prog.safe_recording_bind.mpr fun reply => ?_
      change Prog.Safe _ _ _ _ { ledger with pending := none }
      rw [hholds.unpend]
      split
      · exact ih (by omega)
      · rw [memErase]
        refine Prog.safe_recording_bind.mpr fun erased => ?_
        change Prog.Safe _ _ _ _ (ledger.touch pos none)
        rw [hholds.erased hbound]
        exact ih (by omega)

/-- The pending bytes with the zeros that make them a block. -/
def padded (partition : MtdPartition) (stored : Bytes) : List Bytes :=
  if stored = [] then []
  else [stored ++ List.replicate (partition.eraseSize - stored.length) 0]

/-- The result of a call that closes a session. -/
def Closed (partition : MtdPartition) (blocks : List Bytes) (stored : Bytes) (result : Int)
    (after : Ledger) (pos : Nat) (left : Bytes) : Prop :=
  result ≠ -1 ∧ left = [] ∧ after.Holds (blocks ++ padded partition stored) pos ∨
    result = -1 ∧ stored ≠ [] ∧ left = stored ∧ after.Holds blocks pos

theorem flushPending_records (hholds : ledger.Holds blocks ctx.pos) :
    Records (flushPending partition ctx) (fun result after =>
      result.1 = 0 ∧ result.2.stored = [] ∧
          after.Holds (blocks ++ padded partition ctx.stored) result.2.pos ∨
        result.1 = -1 ∧ ctx.stored ≠ [] ∧ result.2.stored = ctx.stored ∧
          after.Holds blocks result.2.pos) ledger := by
  rw [flushPending]
  by_cases hstored : ctx.stored = []
  · rw [if_neg (by simp [hstored])]
    refine ⟨.inl ⟨rfl, hstored, ?_⟩, trivial⟩
    rwa [padded, if_pos hstored, List.append_nil]
  · rw [if_pos (List.length_pos_of_ne_nil hstored), flushStored]
    refine (writeBlock_records hholds _).bind ?_
    rintro ⟨code, ctx'⟩ after ⟨hsame, ⟨rfl, hafter⟩ | ⟨rfl, hafter⟩⟩
    · refine ⟨.inl ⟨rfl, rfl, ?_⟩, trivial⟩
      rwa [padded, if_neg hstored]
    · exact ⟨.inr ⟨rfl, hstored, hsame, hafter⟩, trivial⟩

theorem mtdEraseBlocks_records (hholds : ledger.Holds blocks ctx.pos) {count : Int}
    (hcount : count ≤ 0) :
    Records (mtdEraseBlocks partition ctx count) (fun result after =>
      Closed partition blocks ctx.stored result.1 after result.2.pos result.2.stored) ledger := by
  rw [mtdEraseBlocks]
  refine (flushPending_records hholds).bind ?_
  rintro ⟨failed, ctx'⟩ after (⟨rfl, hstored, hafter⟩ | ⟨rfl, hstored, hleft, hafter⟩)
  · have hfits : ∀ total : Nat, ¬((total : Int) < if count < 0 then (total : Int) else count) := by
      intro total
      split
      · exact lt_irrefl _
      · omega
    dsimp only
    rw [if_neg (not_not.mpr rfl), if_neg (hfits _)]
    refine (eraseLoop_records _ hafter le_rfl).bind ?_
    rintro pos final rfl
    refine ⟨.inl ⟨?_, hstored, hafter⟩, trivial⟩
    dsimp only
    omega
  · exact ⟨.inr ⟨rfl, hstored, hleft, hafter⟩, trivial⟩

theorem mtdWriteClose_records (hholds : ledger.Holds blocks ctx.pos) :
    Records (mtdWriteClose partition ctx) (fun result after =>
      ∃ pos left, Closed partition blocks ctx.stored result after pos left) ledger := by
  rw [mtdWriteClose]
  refine (mtdEraseBlocks_records hholds le_rfl).bind ?_
  rintro ⟨code, ctx'⟩ after hclosed
  refine ⟨⟨ctx'.pos, ctx'.stored, ?_⟩, trivial⟩
  rcases hclosed with ⟨hcode, hafter⟩ | ⟨rfl, hafter⟩
  · exact .inl ⟨by rw [if_neg hcode]; decide, hafter⟩
  · exact .inr ⟨rfl, hafter⟩

end Writer

end OpenRecovery.Mtd
