/-
The loops that a script has open are those that the scan of its tape has open.

This is so on every tape without calls, be its brackets balanced or not.  The stack of
loops is then a function of the position alone: whether control comes to a position
from the instruction before it, from the end of a loop, or by passing over one, the
scan has come there with the same loops open.  Only off the tape the two may differ,
because an open loop without an end may have been passed over.
-/
import Barrage.Proofs.Script.Fault
import Barrage.Proofs.Script.Findings

namespace Barrage

variable {κ α σ : Type} [Vocabulary κ] [Scalar α]

/-- A tape without calls. -/
def Program.CallFree (p : Program κ α) : Prop :=
  ∀ i ∈ p.code, i.flow ≠ .call

instance (p : Program κ α) : Decidable p.CallFree :=
  inferInstanceAs (Decidable (∀ i ∈ p.code, i.flow ≠ .call))

/-- The open loops are those that the scan has open, and no subroutine is running. -/
structure Control.Bracketed (p : Program κ α) (s : Control) : Prop where
  loops : s.ip < p.size → s.loops.map LoopFrame.start = p.openBefore s.ip
  calls : s.calls = []

namespace Program

variable {p : Program κ α} {s s' : Control} {I : Interpreter κ α σ} {n : Nat} {i : Instruction κ α}
  {t : Pulse κ α (σ × List (HandlerCall κ α))}

theorem CallFree.flow_ne (h : p.CallFree) {k : Nat} (hi : p.get? k = some i) : i.flow ≠ .call :=
  h i (Array.mem_of_getElem? hi)

/-- Every move leads to where the scan has the same loops open. -/
theorem Moves.bracketed (h : p.Moves s s') (noCall : p.CallFree) (hs : s.Bracketed p) :
    s'.Bracketed p := by
  have before : ∀ {i : Instruction κ α}, p.get? s.ip = some i →
      s.loops.map LoopFrame.start = p.openBefore s.ip := fun hi => hs.loops (lt_size_of_get? hi)
  cases h with
  | pass hi hf =>
      refine ⟨fun _ => ?_, hs.calls⟩
      rw [before hi]
      rcases hf with hf | hf | hf <;> exact (openBefore_plain hi (by simp [hf]) (by simp [hf])).symm
  | skip hi _ _ =>
      refine ⟨fun hlt => ?_, hs.calls⟩
      rw [before hi]
      cases hx : p.loopExit? s.ip with
      | none =>
          simp only [hx, Option.getD_none] at hlt
          exact absurd hlt (Nat.lt_irrefl _)
      | some x => exact (openBefore_loopExit? hx).symm
  | enter hi hf _ =>
      refine ⟨fun _ => ?_, hs.calls⟩
      rw [List.map_cons, before hi]
      exact (openBefore_start hi hf).symm
  | stray hi hf hl =>
      refine ⟨fun _ => ?_, hs.calls⟩
      have hopen := before hi
      rw [hl, List.map_nil] at hopen
      rw [hl, openBefore_end hi hf, ← hopen]
      rfl
  | @again i top rest hi _ hl _ =>
      refine ⟨fun _ => ?_, hs.calls⟩
      have hopen := before hi
      rw [hl, List.map_cons] at hopen
      exact (openBefore_top (Nat.le_of_lt (lt_size_of_get? hi)) hopen.symm).symm
  | @close i top rest hi hf hl _ =>
      refine ⟨fun _ => ?_, hs.calls⟩
      have hopen := before hi
      rw [hl, List.map_cons] at hopen
      rw [openBefore_end hi hf, ← hopen, List.tail_cons]
  | call hi hf _ => exact absurd hf (noCall.flow_ne hi)
  | ret _ _ hc =>
      rw [hs.calls] at hc
      exact absurd hc (by simp)

/-- Wherever control can be, the open loops are those that the scan has open. -/
theorem CanReach.bracketed (h : p.CanReach s) (noCall : p.CallFree) : s.Bracketed p := by
  induction h with
  | start => exact ⟨fun _ => rfl, rfl⟩
  | next _ hnext _ ih => exact (moves_of_next? hnext).bracketed noCall ih

/--
**The loops of a run are those of the tape.**  On a tape without calls, whenever an
instruction is about to be dispatched, the loops open are the ones that the scan for
brackets has open there.  So an end finds the loop on top that it is the end of, or
none at all just where the static check reports it astray; and the script is stopped for
too many loops only where a loop starts inside of 64 others.
-/
theorem openLoops_eq_scan (noCall : p.CallFree) (I : Interpreter κ α σ) (n : Nat)
    (t : Pulse κ α (σ × List (HandlerCall κ α))) (h : p.Dispatches I n t) (i : Instruction κ α)
    (hi : p.get? t.cursor.ip = some i) :
    t.cursor.loops.map LoopFrame.start = p.openBefore t.cursor.ip ∧
      (i.flow = .loopEnd →
        (∀ top rest, t.cursor.loops = top :: rest →
          p.loopExit? top.start = some (t.cursor.ip + 1)) ∧
        (t.cursor.loops = [] ↔ .strayLoopEnd t.cursor.ip ∈ p.check)) ∧
      (∀ running c s position depth, t.step I.recorded = .ok (.done running c s) →
        c.fault = some (.loopStackOverflow position depth) →
          position = t.cursor.ip ∧ depth = 64 ∧ i.flow = .loopStart ∧ 0 < i.count ∧
            (p.openBefore t.cursor.ip).length = 64) := by
  have hlt := lt_size_of_get? hi
  have hloops : t.cursor.loops.map LoopFrame.start = p.openBefore t.cursor.ip :=
    (h.canReach.bracketed noCall).loops hlt
  refine ⟨hloops, fun hf => ⟨?_, ?_⟩, ?_⟩
  · intro top rest htop
    rw [htop, List.map_cons] at hloops
    exact loopExit?_of_end hi hf hloops.symm
  · rw [stray_mem_check_iff hi hf, ← hloops, List.map_eq_nil_iff]
  · intro running c s position depth hstep hfault
    obtain ⟨-, -, ⟨-, herror⟩ | ⟨-, refuses⟩⟩ := (Pulse.outcome_of_step hstep).of_fault h.sound
      h.canReach.fits (by rw [h.program]; exact hi) hfault
    · exact absurd herror (by simp)
    · cases refuses with
      | loopStackOverflow hf hpositive hfull =>
          exact ⟨rfl, rfl, hf, hpositive, by rw [← hloops, List.length_map, hfull]⟩

/-- A loop of one pass, with an end too many behind it. -/
def strayEnd : Program Bullet.Kind Float32 :=
  .ofInstructions [.loopStart 1, .wait 0, .loopEnd, .loopEnd]

theorem openLoops_eq_scan_strayEnd :
    let I : Interpreter Bullet.Kind Float32 _ := (⟨[], #[], .keep⟩ : Probe Bullet.Kind).interpreter
    strayEnd.CallFree ∧
      (∃ t, strayEnd.Dispatches I 0 t ∧ t.cursor.ip = 2 ∧ t.cursor.loops = [⟨0, 1⟩] ∧
        strayEnd.loopExit? 0 = some 3) ∧
      ∃ t, strayEnd.Dispatches I 0 t ∧ t.cursor.ip = 3 ∧ .strayLoopEnd 3 ∈ strayEnd.check := by
  intro I
  have noCall : strayEnd.CallFree := by decide
  obtain ⟨t, ht, hip, hloops, t', hstep, hip', hloops'⟩ :
      ∃ t, strayEnd.Dispatches I 0 t ∧ t.cursor.ip = 2 ∧ t.cursor.loops = [⟨0, 1⟩] ∧
        ∃ t', t.step I.recorded = .ok (.next t') ∧ t'.cursor.ip = 3 ∧ t'.cursor.loops = [] :=
    ⟨_, .next (.next (.first (.start (⟨#[], 0⟩ : ProbeLog Bullet.Kind Float32)) rfl (by decide)) rfl)
      rfl, rfl, rfl, _, rfl, rfl, rfl⟩
  have ht' : strayEnd.Dispatches I 0 t' := .next ht hstep
  have hend : strayEnd.get? 2 = some .loopEnd ∧ strayEnd.get? 3 = some .loopEnd := ⟨rfl, rfl⟩
  obtain ⟨-, onEnd, -⟩ := openLoops_eq_scan noCall I 0 t ht .loopEnd (hip ▸ hend.1)
  obtain ⟨-, onEnd', -⟩ := openLoops_eq_scan noCall I 0 t' ht' .loopEnd (hip' ▸ hend.2)
  refine ⟨noCall, ⟨t, ht, hip, hloops, ?_⟩, t', ht', hip', ?_⟩
  · have := (onEnd rfl).1 _ _ hloops
    rwa [hip] at this
  · have := (onEnd' rfl).2.mp hloops'
    rwa [hip'] at this

end Program

end Barrage
