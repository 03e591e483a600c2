import OpenRecovery.ImgPatchOutput
import Mathlib

/-!
# Applying a patch to a sink that takes everything

If all chunks of a patch can be decoded and the sink has room for their output, the
patch is applied completely.
-/

namespace OpenRecovery

open Effects

variable {σ : Type} {handle : (op : SysOp) → σ → op.Reply × σ} {behaviour : SinkBehaviour}
variable {lib : Library} {patch old : Bytes} {size : Nat}

/-- The sink takes what it is given as long as it has not taken more than `size`
bytes. -/
def Accepts (handle : (op : SysOp) → σ → op.Reply × σ) (behaviour : SinkBehaviour) (size : Nat) :
    Prop :=
  ∀ data out state, out.memory.length + data.length ≤ size →
    ((behaviour data out).run handle state).1 = data.length

/-- The bytes are passed on and hashed. -/
def OutState.put (out : OutState) (data : Bytes) : OutState :=
  ⟨out.hashed ++ data, out.memory ++ data⟩

theorem recorded_accepts
    {data : Bytes} {out : OutState} (haccepts : Accepts handle behaviour size)
    (hroom : out.memory.length + data.length ≤ size) (state : σ) :
    ((recorded behaviour data out).run handle state).1 =
      ((data.length : Int), { out with memory := out.memory ++ data }) := by
  rw [recorded_run, haccepts data out state hroom]
  simp

theorem sinkPieces_accepts
    {output : List Bytes} {out : OutState} (haccepts : Accepts handle behaviour size)
    (hroom : out.memory.length + output.flatten.length ≤ size) (state : σ) :
    ((sinkPieces (recorded behaviour) output out).run handle state).1 =
      (0, OutState.put out output.flatten) := by
  induction output generalizing out state with
  | nil => simp [sinkPieces, OutState.put]
  | cons piece rest ih =>
      rw [List.flatten_cons, List.length_append] at hroom
      have htaken := recorded_accepts haccepts (by omega : out.memory.length + piece.length ≤ size)
        state
      simp only [sinkPieces, Prog.run_bind, htaken, ne_eq, not_true_eq_false, if_false]
      rw [ih]
      · simp [OutState.put, OutState.update]
      · simp only [OutState.update, List.length_append]
        omega

theorem putChunk_accepts
    {chunk : Chunk} {data : Bytes} {out : OutState} (haccepts : Accepts handle behaviour size)
    (hdata : chunk.output = some data) (hroom : out.memory.length + data.length ≤ size) (state : σ) :
    ((putChunk (recorded behaviour) chunk out).run handle state).1 = (0, OutState.put out data) := by
  cases chunk with
  | normal output =>
      have houtput : output = some data := hdata
      subst houtput
      have htaken := recorded_accepts haccepts hroom state
      simp [putChunk, htaken, OutState.put, OutState.update]
  | raw raw =>
      have hraw : raw = data := Option.some.inj hdata
      subst hraw
      have htaken := @recorded_accepts _ handle behaviour size raw (out.update raw) haccepts hroom
        state
      simp only [putChunk, Prog.run_bind, htaken, ne_eq, not_true_eq_false, if_false, Prog.pure_eq,
        Prog.run_pure]
      simp [OutState.put, OutState.update]
  | deflate output =>
      have hflatten : output.flatten = data := Option.some.inj hdata
      rw [← hflatten] at hroom ⊢
      exact sinkPieces_accepts haccepts hroom state

theorem applyChunks_accepts
    {left : Nat} {pos : Int} {image : Bytes} {out : OutState}
    (haccepts : Accepts handle behaviour size)
    (himage : chunksOutput lib patch old left pos = some image)
    (hroom : out.memory.length + image.length ≤ size) (state : σ) :
    ((applyChunks lib (recorded behaviour) patch old left pos out).run handle state).1 =
      .ok (0, OutState.put out image) := by
  induction left generalizing pos image out state with
  | zero =>
      have hempty : image = [] := by
        simpa [chunksOutput] using himage.symm
      simp [applyChunks, hempty, OutState.put]
  | succ left ih =>
      unfold chunksOutput at himage
      split at himage
      · rename_i chunk next hread
        split at himage
        · rename_i first rest hfirst hrest
          injection himage with himage
          subst himage
          rw [List.length_append] at hroom
          have hput := putChunk_accepts haccepts hfirst
            (by omega : out.memory.length + first.length ≤ size) state
          obtain ⟨⟨⟨code, middle⟩, middleState⟩, hrun⟩ :
            ∃ put, (putChunk (recorded behaviour) chunk out).run handle state = put := ⟨_, rfl⟩
          rw [hrun] at hput
          simp only [Prod.mk.injEq] at hput
          obtain ⟨rfl, rfl⟩ := hput
          rw [applyChunks, applyChunk_eq, hread]
          simp only [putRead, bind_assoc, Prog.run_bind, hrun, ne_eq, not_true_eq_false, if_false,
            Prog.pure_eq, Prog.run_pure]
          rw [ih hrest]
          · simp [OutState.put]
          · simp only [OutState.put, List.length_append]
            omega
        · simp at himage
      · simp at himage

theorem applyImagePatch_accepts
    {image : Bytes} (haccepts : Accepts handle behaviour size)
    (himage : imageOutput lib patch old = some image) (hroom : image.length ≤ size) (state : σ) :
    ((applyImagePatch lib (recorded behaviour) patch old ⟨[], []⟩).run handle state).1 =
      .ok (0, ⟨image, image⟩) := by
  unfold imageOutput at himage
  split_ifs at himage with hheader
  rw [applyImagePatch, if_neg (by omega), if_neg (not_not.mpr hheader.2),
    applyChunks_accepts haccepts himage (by simpa using hroom)]
  simp [OutState.put]

theorem memorySink_accepts (size : Nat) :
    Accepts handle (fun data out => pure (if (size : Int) - out.memory.length < data.length then -1
      else data.length)) size := by
  intro data out state hroom
  have hfits : ¬ (size : Int) - out.memory.length < data.length := by
    omega
  simp [hfits]

/-- A buffer of the size of the output receives it. -/
theorem applyImagePatch_memorySink
    {image : Bytes} (himage : imageOutput lib patch old = some image) (state : σ) :
    ((applyImagePatch lib (memorySink image.length) patch old ⟨[], []⟩).run handle state).1 =
      .ok (0, ⟨image, image⟩) := by
  rw [memorySink_eq_recorded]
  exact applyImagePatch_accepts (memorySink_accepts image.length) himage (Nat.le_refl _) state

end OpenRecovery
