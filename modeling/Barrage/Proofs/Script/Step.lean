/-
What one round of the dispatch loop does.

There is an equation for `Pulse.step` for each kind of flow, and `Pulse.Outcome` has
one case for each way in which a step can come out.  Whatever is proved about runs is
proved by cases on it, and never by opening `step` again.
-/
import Barrage.Proofs.Script.Control

namespace Barrage

variable {κ α σ : Type} [Vocabulary κ] [Scalar α]

/-! ### One equation for each kind of flow

`step` fetches, counts, asks the guard and dispatches.  `Runs` stands for the first
three with a good end, so that an equation has one premise about how the instruction
came to run and one about what it is.
-/

namespace Cursor

/-- The cursor while a handler has what the present instruction remembers. -/
def taken (c : Cursor κ α) : Cursor κ α :=
  { c with scratch := c.scratch.erase c.ip }

/-- The cursor that waits on the present instruction, which has left `scratch` behind. -/
def held (c : Cursor κ α) (scratch : Option (Scratch α)) : Cursor κ α :=
  { c with
    frame := nextFrame c.frame
    scratch := match scratch with
      | some s => c.scratch.insert c.ip s
      | none => c.scratch }

end Cursor

/-- The fraction of its span that an instruction is told; for a yielding one it is always zero. -/
def Instruction.fraction (i : Instruction κ α) (frame : Int32) : α :=
  match i.flow with
  | .timed => progress frame i.duration
  | _ => 0.0

namespace Pulse

/-- How often the present instruction has been visited, this visit included. -/
def seen (t : Pulse κ α σ) : Nat :=
  (t.visits.modify t.cursor.ip (· + 1))[t.cursor.ip]?.getD 0

/-- The same tick with the present visit counted. -/
def counted (t : Pulse κ α σ) : Pulse κ α σ :=
  { t with visits := t.visits.modify t.cursor.ip (· + 1) }

/-- The instruction that runs, when there is one and the guard lets it. -/
structure Runs (t : Pulse κ α σ) (i : Instruction κ α) : Prop where
  here : t.cursor.program.get? t.cursor.ip = some i
  allowed : t.seen ≤ Limits.visits t.cursor.program.size

/-- The instruction is in the middle of its span: a yielding one, or a timed one with ticks left. -/
def Holds (t : Pulse κ α σ) (i : Instruction κ α) : Prop :=
  i.flow = .yielding ∨ i.flow = .timed ∧ t.cursor.frame < i.duration

/-- What the present instruction remembers. -/
def kept (t : Pulse κ α σ) : Option (Scratch α) :=
  t.cursor.scratch[t.cursor.ip]?

variable {I : Interpreter κ α σ} {t : Pulse κ α σ} {i : Instruction κ α}

theorem step_offTape (hi : t.cursor.program.get? t.cursor.ip = none) :
    t.step I = .ok (.done false t.cursor.finish t.state) := by
  simp [step, hi, pure, Except.pure]

theorem step_runaway (hi : t.cursor.program.get? t.cursor.ip = some i)
    (hover : Limits.visits t.cursor.program.size < t.seen) :
    t.step I = .ok (.done false (t.cursor.abort (.runawayDispatch t.cursor.ip t.seen)) t.state) := by
  unfold seen at hover
  simp [step, hi, hover, seen, pure, Except.pure]

theorem step_runs (run : t.Runs i) : t.step I = t.counted.dispatch I i := by
  have hover := Nat.not_lt.mpr run.allowed
  unfold seen at hover
  simp [step, run.here, hover, counted]

theorem step_instant (run : t.Runs i) (hf : i.flow = .instant) :
    t.step I = (do
      match ← I.instant i t.state with
      | (.proceed, state) =>
          return .next { t.counted with
            cursor := t.cursor.goto { t.cursor.control with ip := t.cursor.ip + 1 }, state }
      | (.halt, state) => return .done false t.cursor.finish state) := by
  rw [step_runs run]
  simp only [dispatch, hf]
  rfl

theorem step_finish (run : t.Runs i) (hf : i.flow = .timed) (hover : i.duration ≤ t.cursor.frame) :
    t.step I = (do
      let (_, _, state) ← I.timed i .finish t.kept t.state
      return .next (ofCursor t.cursor.advance state)) := by
  rw [step_runs run]
  simp only [dispatch, hf]
  rw [if_pos (by exact hover)]
  rfl

theorem step_hold (run : t.Runs i) (hold : t.Holds i) :
    t.step I = (do
      let (answer, scratch, state) ←
        I.timed i (.run t.cursor.frame i.duration (i.fraction t.cursor.frame)) t.kept t.state
      return settle t.cursor.taken answer scratch state) := by
  rw [step_runs run]
  rcases hold with hf | ⟨hf, hleft⟩
  · simp only [dispatch, Instruction.fraction, hf]
    rfl
  · have hnot : ¬ i.duration ≤ t.cursor.frame := Int32.not_le.mpr hleft
    simp only [dispatch, Instruction.fraction, hf]
    rw [if_neg (by exact hnot)]
    rfl

/-- A step of a held instruction has called its handler for a tick, and settles by the answer. -/
theorem settled_of_step {r : Step κ α σ} (run : t.Runs i) (hold : t.Holds i)
    (h : t.step I = .ok r) : ∃ answer scratch state,
      I.timed i (.run t.cursor.frame i.duration (i.fraction t.cursor.frame)) t.kept t.state
        = .ok (answer, scratch, state) ∧ r = settle t.cursor.taken answer scratch state := by
  rw [step_hold run hold] at h
  rcases hcall : I.timed i (.run t.cursor.frame i.duration (i.fraction t.cursor.frame)) t.kept
      t.state with e | ⟨answer, scratch, state⟩
  · rw [hcall] at h
    exact absurd h (by simp [bind, Except.bind])
  · rw [hcall] at h
    exact ⟨answer, scratch, state, rfl, (Except.ok.inj h).symm⟩

/-- A step at the end of a span has called the handler for that, and goes on whatever it answers. -/
theorem advanced_of_step {r : Step κ α σ} (run : t.Runs i) (hf : i.flow = .timed)
    (hover : i.duration ≤ t.cursor.frame) (h : t.step I = .ok r) : ∃ answer scratch state,
      I.timed i .finish t.kept t.state = .ok (answer, scratch, state) ∧
        r = .next (ofCursor t.cursor.advance state) := by
  rw [step_finish run hf hover] at h
  rcases hcall : I.timed i .finish t.kept t.state with e | ⟨answer, scratch, state⟩
  · rw [hcall] at h
    exact absurd h (by simp [bind, Except.bind])
  · rw [hcall] at h
    exact ⟨answer, scratch, state, rfl, (Except.ok.inj h).symm⟩

theorem step_jump (run : t.Runs i) (hf : i.flow.Jumps) :
    t.step I = .ok (t.counted.jump (t.cursor.obey i)) := by
  rw [step_runs run]
  rcases hf with hf | hf | hf | hf <;> simp only [dispatch, Cursor.obey, hf] <;> rfl

theorem step_stop (run : t.Runs i) (hf : i.flow = .stop) :
    t.step I = .ok (.done false t.cursor.finish t.state) := by
  rw [step_runs run]
  simp only [dispatch, hf]
  rfl

/-- The ways in which a step comes out when no handler crashes. -/
inductive Outcome (I : Interpreter κ α σ) (t : Pulse κ α σ) : Step κ α σ → Prop
  | offTape (hi : t.cursor.program.get? t.cursor.ip = none) :
      Outcome I t (.done false t.cursor.finish t.state)
  | runaway {i : Instruction κ α} (hi : t.cursor.program.get? t.cursor.ip = some i)
      (tooOften : Limits.visits t.cursor.program.size < t.seen) :
      Outcome I t (.done false (t.cursor.abort (.runawayDispatch t.cursor.ip t.seen)) t.state)
  | proceed {i : Instruction κ α} {state : σ} (run : t.Runs i) (hf : i.flow = .instant)
      (call : I.instant i t.state = .ok (.proceed, state)) :
      Outcome I t (.next { t.counted with
        cursor := t.cursor.goto { t.cursor.control with ip := t.cursor.ip + 1 }, state })
  | halt {i : Instruction κ α} {state : σ} (run : t.Runs i) (hf : i.flow = .instant)
      (call : I.instant i t.state = .ok (.halt, state)) :
      Outcome I t (.done false t.cursor.finish state)
  | finish {i : Instruction κ α} {answer : Hold} {scratch : Option (Scratch α)} {state : σ}
      (run : t.Runs i) (hf : i.flow = .timed) (expired : i.duration ≤ t.cursor.frame)
      (call : I.timed i .finish t.kept t.state = .ok (answer, scratch, state)) :
      Outcome I t (.next (ofCursor t.cursor.advance state))
  | pending {i : Instruction κ α} {scratch : Option (Scratch α)} {state : σ}
      (run : t.Runs i) (hold : t.Holds i)
      (call : I.timed i (.run t.cursor.frame i.duration (i.fraction t.cursor.frame)) t.kept t.state
        = .ok (.pending, scratch, state)) :
      Outcome I t (.done true (t.cursor.taken.held scratch) state)
  | release {i : Instruction κ α} {scratch : Option (Scratch α)} {state : σ}
      (run : t.Runs i) (hold : t.Holds i)
      (call : I.timed i (.run t.cursor.frame i.duration (i.fraction t.cursor.frame)) t.kept t.state
        = .ok (.release, scratch, state)) :
      Outcome I t (.next (ofCursor t.cursor.taken.advance state))
  | jump {i : Instruction κ α} {c : Cursor κ α} (run : t.Runs i) (hf : i.flow.Jumps)
      (leads : t.cursor.obey i = .ok c) :
      Outcome I t (.next { t.counted with cursor := c })
  | refused {i : Instruction κ α} {e : ScriptError} (run : t.Runs i) (hf : i.flow.Jumps)
      (refuses : t.cursor.obey i = .error e) :
      Outcome I t (.done false (t.cursor.abort e) t.state)
  | stop {i : Instruction κ α} (run : t.Runs i) (hf : i.flow = .stop) :
      Outcome I t (.done false t.cursor.finish t.state)

/-- The handler call that a step makes has crashed. -/
inductive Crashes (I : Interpreter κ α σ) (t : Pulse κ α σ) : Crash → Prop
  | instant {i : Instruction κ α} {e : Crash} (run : t.Runs i)
      (call : I.instant i t.state = .error e) : Crashes I t e
  | timed {i : Instruction κ α} {phase : Phase α} {e : Crash} (run : t.Runs i)
      (call : I.timed i phase t.kept t.state = .error e) : Crashes I t e

/-- What a step of a running instruction comes to. -/
theorem runs_outcome (run : t.Runs i) :
    (∃ r, t.step I = .ok r ∧ Outcome I t r) ∨ ∃ e, t.step I = .error e ∧ Crashes I t e := by
  have hold : t.Holds i →
      (∃ r, t.step I = .ok r ∧ Outcome I t r) ∨ ∃ e, t.step I = .error e ∧ Crashes I t e := by
    intro hold
    rw [step_hold run hold]
    cases call :
      I.timed i (.run t.cursor.frame i.duration (i.fraction t.cursor.frame)) t.kept t.state with
    | error e => exact Or.inr ⟨e, rfl, .timed run call⟩
    | ok answered =>
        obtain ⟨answer, scratch, state⟩ := answered
        cases answer with
        | pending => exact Or.inl ⟨_, rfl, .pending run hold call⟩
        | release => exact Or.inl ⟨_, rfl, .release run hold call⟩
  have jump : i.flow.Jumps →
      (∃ r, t.step I = .ok r ∧ Outcome I t r) ∨ ∃ e, t.step I = .error e ∧ Crashes I t e := by
    intro hf
    rw [step_jump run hf]
    cases hobey : t.cursor.obey i with
    | ok c => exact Or.inl ⟨_, rfl, .jump run hf hobey⟩
    | error e => exact Or.inl ⟨_, rfl, .refused run hf hobey⟩
  cases hf : i.flow with
  | instant =>
      rw [step_instant run hf]
      cases call : I.instant i t.state with
      | error e => exact Or.inr ⟨e, rfl, .instant run call⟩
      | ok answered =>
          obtain ⟨signal, state⟩ := answered
          cases signal with
          | proceed => exact Or.inl ⟨_, rfl, .proceed run hf call⟩
          | halt => exact Or.inl ⟨_, rfl, .halt run hf call⟩
  | timed =>
      by_cases hover : i.duration ≤ t.cursor.frame
      · rw [step_finish run hf hover]
        cases call : I.timed i .finish t.kept t.state with
        | error e => exact Or.inr ⟨e, rfl, .timed run call⟩
        | ok answered => exact Or.inl ⟨_, rfl, .finish run hf hover call⟩
      · exact hold (Or.inr ⟨hf, Int32.not_le.mp hover⟩)
  | yielding => exact hold (Or.inl hf)
  | loopStart => exact jump (Or.inl hf)
  | loopEnd => exact jump (Or.inr (Or.inl hf))
  | call => exact jump (Or.inr (Or.inr (Or.inl hf)))
  | ret => exact jump (Or.inr (Or.inr (Or.inr hf)))
  | stop => exact Or.inl ⟨_, step_stop run hf, .stop run hf⟩

/-- Every step comes out in one of the ways listed, unless its handler crashes. -/
theorem step_outcome (I : Interpreter κ α σ) (t : Pulse κ α σ) :
    (∃ r, t.step I = .ok r ∧ Outcome I t r) ∨ ∃ e, t.step I = .error e ∧ Crashes I t e := by
  cases hi : t.cursor.program.get? t.cursor.ip with
  | none => exact Or.inl ⟨_, step_offTape hi, .offTape hi⟩
  | some i =>
      by_cases hseen : t.seen ≤ Limits.visits t.cursor.program.size
      · exact runs_outcome ⟨hi, hseen⟩
      · exact Or.inl ⟨_, step_runaway hi (Nat.not_le.mp hseen), .runaway hi (Nat.not_le.mp hseen)⟩

theorem outcome_of_step {r : Step κ α σ} (h : t.step I = .ok r) : Outcome I t r := by
  rcases step_outcome I t with ⟨r', hr, hout⟩ | ⟨e, he, -⟩
  · rw [hr] at h
    cases h
    exact hout
  · exact absurd (he.symm.trans h) (by simp)

/-- A step that suspends the script has called the handler of an instruction that is held. -/
theorem suspended_of_step {c : Cursor κ α} {state : σ} (run : t.Runs i)
    (hstep : t.step I = .ok (.done true c state)) :
    t.Holds i ∧ ∃ left,
      I.timed i (.run t.cursor.frame i.duration (i.fraction t.cursor.frame)) t.kept t.state
        = .ok (.pending, left, state) ∧ c = t.cursor.taken.held left := by
  cases outcome_of_step hstep with
  | @pending j left _ run' hold call =>
      obtain rfl : i = j := Option.some.inj (run.here.symm.trans run'.here)
      exact ⟨hold, left, call, rfl⟩

/-! ### Only steps that go on move control -/

/-- A step after which the tick goes on moves control by `next?`, within the limits. -/
theorem Outcome.leads {t' : Pulse κ α σ} (h : Outcome I t (.next t')) :
    t'.cursor.program = t.cursor.program ∧
      t.cursor.program.next? t.cursor.control = some t'.cursor.control ∧
      (t.cursor.control.Fits → t'.cursor.control.Fits) := by
  have pass : ∀ {i : Instruction κ α}, t.Runs i →
      i.flow = .instant ∨ i.flow = .timed ∨ i.flow = .yielding →
      t.cursor.program.next? t.cursor.control
        = some { t.cursor.control with ip := t.cursor.ip + 1 } := by
    intro i run hf
    rcases hf with hf | hf | hf <;> simp [Program.next?, run.here, hf]
  have timed : ∀ {i : Instruction κ α}, t.Holds i → i.flow = .timed ∨ i.flow = .yielding := by
    intro i hold
    rcases hold with hf | ⟨hf, -⟩
    · exact Or.inr hf
    · exact Or.inl hf
  cases h with
  | proceed run hf _ => exact ⟨rfl, pass run (Or.inl hf), fun fits => ⟨fits.loops, fits.calls⟩⟩
  | finish run hf _ _ =>
      exact ⟨rfl, pass run (Or.inr (Or.inl hf)), fun fits => ⟨fits.loops, fits.calls⟩⟩
  | release run hold _ =>
      exact ⟨rfl, pass run (Or.inr (timed hold)), fun fits => ⟨fits.loops, fits.calls⟩⟩
  | jump run hf hobey =>
      have leads := Cursor.obey_leads run.here hf hobey
      refine ⟨?_, leads.next, leads.fits⟩
      show Cursor.program _ = _
      rw [leads.same]
      rfl

/-- A step that ends the tick leaves control where it is. -/
theorem Outcome.stays {running : Bool} {c : Cursor κ α} {state : σ}
    (h : Outcome I t (.done running c state)) :
    c.program = t.cursor.program ∧ c.control = t.cursor.control := by
  cases h <;> exact ⟨rfl, rfl⟩

end Pulse

end Barrage
