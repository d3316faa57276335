/-
Interpreters of a state of which another shows a part.

An interpreter may do all that another does and keep more in its state, such as a record
of its calls.  Whoever looks only at the part that both have sees the same then: the
dispatch loop looks at no state at all, so an update comes to the same for both, up to
what one of them keeps besides.
-/
import Barrage.Script.Dispatch

namespace Barrage

variable {κ α σ τ : Type}

/-- In what `view` shows of its state, `J` does the same as `I`. -/
structure Interpreter.Shows (J : Interpreter κ α τ) (I : Interpreter κ α σ) (view : τ → σ) :
    Prop where
  instant : ∀ i state, I.instant i (view state) =
    (fun (signal, state) => (signal, view state)) <$> J.instant i state
  timed : ∀ i phase given state, I.timed i phase given (view state) =
    (fun (answer, left, state) => (answer, left, view state)) <$> J.timed i phase given state

variable [Vocabulary κ] [Scalar α]

namespace Pulse

/-- What is shown of a script in the middle of a tick. -/
def view (f : τ → σ) (t : Pulse κ α τ) : Pulse κ α σ :=
  { cursor := t.cursor, visits := t.visits, state := f t.state }

end Pulse

/-- What is shown of what a step comes to. -/
def Step.view (f : τ → σ) : Step κ α τ → Step κ α σ
  | .next t => .next (t.view f)
  | .done running c state => .done running c (f state)

variable {J : Interpreter κ α τ} {I : Interpreter κ α σ} {f : τ → σ}

namespace Pulse

theorem jump_view (t : Pulse κ α τ) (target : Except ScriptError (Cursor κ α)) :
    (t.view f).jump target = (t.jump target).view f := by
  cases target <;> rfl

theorem settle_view (c : Cursor κ α) (answer : Hold) (left : Option (Scratch α)) (state : τ) :
    settle c answer left (f state) = (settle c answer left state).view f := by
  cases answer <;> rfl

theorem hold_view (shows : J.Shows I f) (t : Pulse κ α τ) (i : Instruction κ α) (fraction : α) :
    (t.view f).hold I i fraction = Step.view f <$> t.hold J i fraction := by
  unfold hold
  simp only [view, shows.timed, bind_map_left, map_bind]
  exact bind_congr fun answered => congrArg Except.ok (settle_view _ _ _ _)

theorem finish_view (shows : J.Shows I f) (t : Pulse κ α τ) (i : Instruction κ α) :
    (t.view f).finish I i = Step.view f <$> t.finish J i := by
  unfold finish
  simp only [view, shows.timed, bind_map_left, map_bind]
  rfl

theorem dispatch_view (shows : J.Shows I f) (t : Pulse κ α τ) (i : Instruction κ α) :
    (t.view f).dispatch I i = Step.view f <$> t.dispatch J i := by
  unfold dispatch
  cases i.flow
  case instant =>
    simp only [view, shows.instant, bind_map_left, map_bind]
    refine bind_congr fun answered => ?_
    obtain ⟨signal, state⟩ := answered
    cases signal <;> rfl
  case timed =>
    dsimp only
    by_cases hover : i.duration ≤ t.cursor.frame
    · have hover' : i.duration ≤ (t.view f).cursor.frame := hover
      rw [if_pos hover, if_pos hover']
      exact finish_view shows t i
    · have hover' : ¬ i.duration ≤ (t.view f).cursor.frame := hover
      rw [if_neg hover, if_neg hover']
      exact hold_view shows t i _
  case yielding => exact hold_view shows t i _
  case loopStart => exact congrArg Except.ok (jump_view t _)
  case call => exact congrArg Except.ok (jump_view t _)
  case ret => exact congrArg Except.ok (jump_view t _)
  case loopEnd => rfl
  case stop => rfl

theorem step_view (shows : J.Shows I f) (t : Pulse κ α τ) :
    (t.view f).step I = Step.view f <$> t.step J := by
  unfold step
  have here : (t.view f).cursor = t.cursor := rfl
  simp only [here]
  cases t.cursor.program.get? t.cursor.ip with
  | none => rfl
  | some i =>
      dsimp only
      have visits : (t.view f).visits = t.visits := rfl
      rw [visits]
      split
      · rfl
      · exact dispatch_view shows { t with visits := t.visits.modify t.cursor.ip (· + 1) } i

theorem run_view (shows : J.Shows I f) (fuel : Nat) (t : Pulse κ α τ) :
    (t.view f).run I fuel =
      (fun (running, c, state) => (running, c, f state)) <$> t.run J fuel := by
  induction fuel generalizing t with
  | zero => rfl
  | succ fuel ih =>
      unfold run
      rw [step_view shows, bind_map_left, map_bind]
      refine bind_congr fun r => ?_
      cases r with
      | next t' => exact ih t'
      | done running c state => rfl

end Pulse

/-- An update comes to the same, in what is shown of it. -/
theorem Cursor.update_view (shows : J.Shows I f) (c : Cursor κ α) (state : τ) :
    c.update I (f state) =
      (fun (running, c, state) => (running, c, f state)) <$> c.update J state := by
  unfold update
  split
  · rfl
  · split
    · rfl
    · exact Pulse.run_view shows _ (Pulse.ofCursor c state)

end Barrage
