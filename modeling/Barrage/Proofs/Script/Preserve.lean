/-
What handlers preserve, updates preserve.

The dispatch loop has no state of its own; all that it does to the state of an
interpreter is to hand it from one handler to the next.  So a property that every
handler keeps, for the instructions of one program, holds at every point of every
update of a script that runs this program, and after it.
-/
import Barrage.Proofs.Script.Rest

namespace Barrage

variable {κ α σ : Type} [Vocabulary κ] [Scalar α]

/-- The handlers keep `P` when they are called for instructions of `p`. -/
structure Interpreter.Preserves (I : Interpreter κ α σ) (p : Program κ α) (P : σ → Prop) :
    Prop where
  instant : ∀ i ∈ p.code, ∀ state signal state', P state →
    I.instant i state = .ok (signal, state') → P state'
  timed : ∀ i ∈ p.code, ∀ phase given state answer left state', P state →
    I.timed i phase given state = .ok (answer, left, state') → P state'

/-- The points that a tick comes to from `t` on. -/
inductive Pulse.Within (I : Interpreter κ α σ) (t : Pulse κ α σ) : Pulse κ α σ → Prop
  | start : Within I t t
  | next {t' t'' : Pulse κ α σ} (h : Within I t t') (hstep : t'.step I = .ok (.next t'')) :
      Within I t t''

/-- The state of the interpreter after a step. -/
def Step.state : Step κ α σ → σ
  | .next t => t.state
  | .done _ _ state => state

variable {I : Interpreter κ α σ} {p : Program κ α} {P : σ → Prop} {t t' u u' : Pulse κ α σ}
  {r : Step κ α σ} {c c' : Cursor κ α} {state state' : σ} {running : Bool}
  {o : Except Crash (Bool × Cursor κ α × σ)}

namespace Pulse

theorem Runs.mem_code {i : Instruction κ α} (run : t.Runs i) : i ∈ t.cursor.program.code :=
  Array.mem_of_getElem? run.here

/-- A step changes the state by one handler call, or not at all. -/
theorem Outcome.state_cases (out : Outcome I t r) : r.state = t.state ∨ ∃ i, t.Runs i ∧
    ((∃ signal, I.instant i t.state = .ok (signal, r.state)) ∨
      ∃ phase answer left, I.timed i phase t.kept t.state = .ok (answer, left, r.state)) := by
  cases out with
  | offTape _ | runaway _ _ | jump _ _ _ | refused _ _ _ | stop _ _ => exact Or.inl rfl
  | proceed run _ call | halt run _ call => exact Or.inr ⟨_, run, Or.inl ⟨_, call⟩⟩
  | finish run _ _ call | pending run _ call | release run _ call =>
      exact Or.inr ⟨_, run, Or.inr ⟨_, _, _, call⟩⟩

theorem step_proceed {i : Instruction κ α} (run : t.Runs i) (hf : i.flow = .instant)
    (call : I.instant i t.state = .ok (.proceed, state)) :
    ∃ t', t.step I = .ok (.next t') ∧ t'.state = state := by
  rw [step_instant run hf, call]
  exact ⟨_, rfl, rfl⟩

theorem Within.program (h : t.Within I t') : t'.cursor.program = t.cursor.program := by
  induction h with
  | start => rfl
  | next _ hstep ih => exact (outcome_of_step hstep).leads.1.trans ih

/-- At every point of a tick the cursor is as sound as at its start. -/
theorem Within.sound (h : t.Within I t') (sound : t.Sound) : t'.Sound := by
  induction h with
  | start => exact sound
  | next _ hstep ih => exact ((outcome_of_step hstep).idle ih).1

theorem Within.fits (h : t.Within I t') (fits : t.cursor.control.Fits) :
    t'.cursor.control.Fits := by
  induction h with
  | start => exact fits
  | next _ hstep ih => exact (outcome_of_step hstep).leads.2.2 ih

/-- How a tick ends is decided by what comes after one of its points. -/
theorem Within.takes (h : t.Within I u) {n : Nat} (rest : u.Takes I n o) :
    ∃ m, t.Takes I m o := by
  induction h generalizing n with
  | start => exact ⟨n, rest⟩
  | next _ hstep ih => exact ih (.next hstep rest)

/-- The points that come after the first one are points after its successor. -/
theorem Within.cases_start (h : t.Within I u) :
    t = u ∨ ∃ t', t.step I = .ok (.next t') ∧ t'.Within I u := by
  induction h with
  | start => exact Or.inl rfl
  | @next u v _ hstep ih =>
      rcases ih with rfl | ⟨t', hfirst, hrest⟩
      · exact Or.inr ⟨v, hstep, .start⟩
      · exact Or.inr ⟨t', hfirst, .next hrest hstep⟩

/-- What a tick comes to after its first step, the tick comes to. -/
theorem Within.head (hstep : t.step I = .ok (.next t')) (h : t'.Within I u) : t.Within I u := by
  induction h with
  | start => exact .next .start hstep
  | next _ hlast ih => exact .next ih hlast

/-- After its start a tick comes only to instructions that are begun. -/
theorem Within.start_or_idle (h : t.Within I u) (sound : t.Sound) : u = t ∨ u.cursor.Idle := by
  cases h with
  | start => exact Or.inl rfl
  | next hbefore hstep => exact Or.inr ((outcome_of_step hstep).idle (hbefore.sound sound)).2

/-- Of two points of a tick, one comes after the other. -/
theorem Within.linear (h : t.Within I u) (h' : t.Within I u') :
    u.Within I u' ∨ u'.Within I u := by
  induction h' with
  | start => exact Or.inr h
  | @next v w _ hstep ih =>
      rcases ih with before | after
      · exact Or.inl (.next before hstep)
      · rcases after.cases_start with rfl | ⟨v', hfirst, hrest⟩
        · exact Or.inl (.next .start hstep)
        · rw [hstep, Except.ok.injEq, Step.next.injEq] at hfirst
          exact Or.inr (hfirst ▸ hrest)

/-- A tick has one last point at most. -/
theorem Within.last_unique (h : t.Within I u) (h' : t.Within I u')
    (last : ∀ v, u.step I ≠ .ok (.next v)) (last' : ∀ v, u'.step I ≠ .ok (.next v)) : u = u' := by
  rcases h.linear h' with before | after
  · rcases before.cases_start with rfl | ⟨v, hnext, -⟩
    · rfl
    · exact absurd hnext (last v)
  · rcases after.cases_start with rfl | ⟨v, hnext, -⟩
    · rfl
    · exact absurd hnext (last' v)

/-- A tick that is completed ends with a step from one of its points. -/
theorem Takes.within {n : Nat} (h : t.Takes I n (.ok (running, c, state))) :
    ∃ t', t.Within I t' ∧ t'.step I = .ok (.done running c state) :=
  h.last (fun _ _ hwithin hstep => Within.next hwithin hstep) .start rfl

/-- Whatever the number of steps that is allowed, a loop ends with a step from one of its points, or
at one of them when none is left. -/
theorem run_within {fuel : Nat} (h : t.run I fuel = .ok (running, c, state)) :
    ∃ t', t.Within I t' ∧ (t'.step I = .ok (.done running c state) ∨
      running = true ∧ c = t'.cursor ∧ state = t'.state) := by
  induction fuel generalizing t with
  | zero =>
      cases h
      exact ⟨t, .start, Or.inr ⟨rfl, rfl, rfl⟩⟩
  | succ fuel ih =>
      cases hstep : t.step I with
      | error e =>
          rw [run_error hstep] at h
          cases h
      | ok r =>
          cases r with
          | next t' =>
              rw [run_next hstep] at h
              obtain ⟨u, hwithin, hlast⟩ := ih h
              exact ⟨u, hwithin.head hstep, hlast⟩
          | done running' c' state' =>
              rw [run_done hstep] at h
              cases h
              exact ⟨t, .start, Or.inl hstep⟩

/-- A tick that crashes does so with a step from one of its points. -/
theorem Takes.crash_within {n : Nat} {e : Crash} (h : t.Takes I n (.error e)) :
    ∃ t', t.Within I t' ∧ t'.step I = .error e := by
  have last : ∀ {n u}, t.Within I u → u.Takes I n (.error e) →
      ∃ t', t.Within I t' ∧ t'.step I = .error e := by
    intro n u within takes
    generalize ho : (.error e : Except Crash (Bool × Cursor κ α × σ)) = o at takes
    induction takes with
    | crash hstep =>
        cases ho
        exact ⟨_, within, hstep⟩
    | done _ => cases ho
    | next hstep _ ih => exact ih (.next within hstep) ho
  exact last .start h

/-- A step after which the tick goes on does not end the script. -/
theorem Outcome.unfinished (out : Outcome I t (.next t')) (unfinished : t.cursor.finished = false) :
    t'.cursor.finished = false := by
  cases out with
  | proceed _ _ _ | finish _ _ _ _ | release _ _ _ => exact unfinished
  | jump run hf leads =>
      show Cursor.finished _ = false
      rw [(Cursor.obey_leads run.here hf leads).same]
      exact unfinished

/-- Nor does one that suspends it. -/
theorem Outcome.unfinished_of_suspended (out : Outcome I t (.done true c state))
    (unfinished : t.cursor.finished = false) : c.finished = false := by
  cases out
  exact unfinished

theorem Within.unfinished (h : t.Within I t') (unfinished : t.cursor.finished = false) :
    t'.cursor.finished = false := by
  induction h with
  | start => exact unfinished
  | next _ hstep ih => exact (outcome_of_step hstep).unfinished ih

end Pulse

namespace Cursor

/-- An update of a script that is not over ends with a step from one of its points, be it on its tape
or off it, or at one of them when no more steps are allowed. -/
theorem update_within (unfinished : c.finished = false)
    (hu : c.update I state = .ok (running, c', state')) :
    ∃ t, (Pulse.ofCursor c state).Within I t ∧ (t.step I = .ok (.done running c' state') ∨
      running = true ∧ c' = t.cursor ∧ state' = t.state) := by
  unfold update at hu
  rw [if_neg (by simp [unfinished])] at hu
  by_cases hoff : c.program.size ≤ c.ip
  · rw [if_pos hoff] at hu
    cases hu
    have hnone : c.program.get? c.ip = none := Array.getElem?_eq_none hoff
    exact ⟨.ofCursor c state, .start, Or.inl (Pulse.step_offTape hnone)⟩
  · rw [if_neg hoff] at hu
    exact Pulse.run_within hu

/-- A script that says that it has more is not over. -/
theorem unfinished_of_running (hu : c.update I state = .ok (true, c', state')) :
    c'.finished = false := by
  by_cases hfinished : c.finished = true
  · rw [update_finished hfinished] at hu
    cases hu
  · have unfinished := Bool.eq_false_of_not_eq_true hfinished
    obtain ⟨t, hwithin, hlast | ⟨-, rfl, -⟩⟩ := update_within unfinished hu
    · exact (Pulse.outcome_of_step hlast).unfinished_of_suspended (hwithin.unfinished unfinished)
    · exact hwithin.unfinished unfinished

end Cursor

/-- What is always true is preserved. -/
theorem Interpreter.preserves_true (I : Interpreter κ α σ) (p : Program κ α) :
    I.Preserves p fun _ => True :=
  ⟨fun _ _ _ _ _ _ _ => trivial, fun _ _ _ _ _ _ _ _ _ _ => trivial⟩

namespace Interpreter.Preserves

theorem step (keeps : I.Preserves p P) (hp : t.cursor.program = p) (h : P t.state)
    (hstep : t.step I = .ok r) : P r.state := by
  subst hp
  rcases (Pulse.outcome_of_step hstep).state_cases with
    same | ⟨i, run, ⟨signal, call⟩ | ⟨phase, answer, left, call⟩⟩
  · exact same ▸ h
  · exact keeps.instant i run.mem_code _ _ _ h call
  · exact keeps.timed i run.mem_code _ _ _ _ _ _ h call

/-- The property holds at every point of a tick. -/
theorem within (keeps : I.Preserves p P) (hp : t.cursor.program = p) (h : P t.state)
    (hwithin : t.Within I t') : P t'.state := by
  induction hwithin with
  | start => exact h
  | next hbefore hstep ih => exact keeps.step (hbefore.program.trans hp) ih hstep

/-- The property holds after an update, from wherever the script goes on. -/
theorem updated (keeps : I.Preserves p P) (hp : c.program = p) (h : P state)
    (hu : c.update I state = .ok (running, c', state')) : P state' := by
  by_cases hfinished : c.finished = true
  · rw [Cursor.update_finished hfinished] at hu
    cases hu
    exact h
  · have hstart : (Pulse.ofCursor c state).cursor.program = p := hp
    obtain ⟨t, hwithin, hlast⟩ := Cursor.update_within (Bool.eq_false_of_not_eq_true hfinished) hu
    have here : P t.state := keeps.within hstart h hwithin
    rcases hlast with hstep | ⟨-, -, rfl⟩
    · exact keeps.step (hwithin.program.trans hstart) here hstep
    · exact here

/-- The property holds after an update. -/
theorem update (keeps : I.Preserves p P) (hc : c.Reachable p) (h : P state)
    (hu : c.update I state = .ok (running, c', state')) : P state' :=
  keeps.updated hc.canReach.1 h hu

/-- An update that crashes has called a handler that does, in a state with the property. -/
theorem crash {e : Crash} (keeps : I.Preserves p P) (hc : c.Reachable p) (h : P state)
    (hu : c.update I state = .error e) : ∃ i ∈ p.code, ∃ state, P state ∧
      (I.instant i state = .error e ∨ ∃ phase given, I.timed i phase given state = .error e) := by
  obtain ⟨n, -, hticks⟩ := hc.ticks I state
  rw [hu] at hticks
  cases hticks with
  | dispatch _ _ takes =>
      have hp : (Pulse.ofCursor c state).cursor.program = p := hc.canReach.1
      obtain ⟨t, hwithin, hcrash⟩ := takes.crash_within
      have here := hwithin.program.trans hp
      have hstate := keeps.within hp h hwithin
      rcases Pulse.step_outcome I t with ⟨r, hr, -⟩ | ⟨e', he', crashes⟩
      · exact absurd (hr.symm.trans hcrash) (by simp)
      · obtain rfl := Except.error.inj (he'.symm.trans hcrash)
        cases crashes with
        | instant run call => exact ⟨_, here ▸ run.mem_code, _, hstate, Or.inl call⟩
        | timed run call => exact ⟨_, here ▸ run.mem_code, _, hstate, Or.inr ⟨_, _, call⟩⟩

end Interpreter.Preserves

end Barrage
