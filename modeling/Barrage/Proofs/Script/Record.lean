/-
Runs whose handler calls are written down.

`Interpreter.recorded` answers like the interpreter it is made of and keeps a record of
every call.  Nothing about the dispatch loop has to be assumed for that: the record is
part of the state that the loop hands from one handler to the next, so it lists the
calls that have been made, in order.  `Cursor.update_recorded` says that an update without
its record is the update as it would have been, so what is stated of recorded runs holds
of all runs.

A run is a sequence of updates from the start of a program.  Between two of them the
owner of the script may change the state as it likes, but not the record.
-/
import Barrage.Proofs.Script.Rest
import Barrage.Proofs.Script.View

namespace Barrage

variable {κ α σ : Type} [Vocabulary κ] [Scalar α]

/-- A call of a handler, with its answer. -/
inductive HandlerCall (κ α : Type) where
  | instant (i : Instruction κ α) (answer : Signal)
  /-- A call for a tick of a span; `given` is what was remembered, and `left` what is to be. -/
  | timed (i : Instruction κ α) (phase : Phase α) (given : Option (Scratch α)) (answer : Hold)
      (left : Option (Scratch α))

namespace Interpreter

/-- The same interpreter, which also writes down what it is asked and what it answers. -/
def recorded (I : Interpreter κ α σ) : Interpreter κ α (σ × List (HandlerCall κ α)) where
  instant i := fun (state, calls) => do
    let (answer, state) ← I.instant i state
    return (answer, state, calls ++ [.instant i answer])
  timed i phase given := fun (state, calls) => do
    let (answer, left, state) ← I.timed i phase given state
    return (answer, left, state, calls ++ [.timed i phase given answer left])

omit [Vocabulary κ] [Scalar α] in
/-- Whoever does not look at the record sees the interpreter that is recorded. -/
theorem recorded_shows (I : Interpreter κ α σ) : I.recorded.Shows I Prod.fst where
  instant i s := by
    show _ = _ <$> (I.instant i s.1 >>= _)
    cases I.instant i s.1 <;> rfl
  timed i phase given s := by
    show _ = _ <$> (I.timed i phase given s.1 >>= _)
    cases I.timed i phase given s.1 <;> rfl

variable {I : Interpreter κ α σ} {i : Instruction κ α} {s s' : σ × List (HandlerCall κ α)}

omit [Vocabulary κ] [Scalar α] in
theorem recorded_timed {phase : Phase α} {given left : Option (Scratch α)} {answer : Hold}
    (h : I.recorded.timed i phase given s = .ok (answer, left, s')) :
    s'.2 = s.2 ++ [.timed i phase given answer left] := by
  simp only [recorded] at h
  rcases hcall : I.timed i phase given s.1 with e | ⟨answer', left', state⟩
  · rw [hcall] at h
    exact absurd h (by simp [bind, Except.bind])
  · rw [hcall] at h
    cases h
    rfl

end Interpreter

/-- An update is the recorded one without its record, whatever has been recorded before. -/
theorem Cursor.update_recorded (I : Interpreter κ α σ) (c : Cursor κ α) (state : σ)
    (calls : List (HandlerCall κ α)) :
    c.update I state =
      (fun (running, c, s) => (running, c, s.1)) <$> c.update I.recorded (state, calls) :=
  c.update_view I.recorded_shows (state, calls)

/-! ### Runs

A run is indexed by the number of updates that have led to it, and the state may be
changed in between, since it belongs to the owner of the script as well.  What the
dispatch loop comes to within an update is `Dispatches`, so a statement about an
instruction can say in which update it is run.
-/

namespace Program

/-- In a run of `p`, `n` updates have led to this cursor, this state and this record. -/
inductive Updated (p : Program κ α) (I : Interpreter κ α σ) :
    Nat → Cursor κ α → σ × List (HandlerCall κ α) → Prop
  | start (state : σ) : Updated p I 0 (.ofProgram p) (state, [])
  | update {n : Nat} {c c' : Cursor κ α} {s s' : σ × List (HandlerCall κ α)} {running : Bool}
      (h : Updated p I n c s) (hu : c.update I.recorded s = .ok (running, c', s')) :
      Updated p I (n + 1) c' s'
  | change {n : Nat} {c : Cursor κ α} {state : σ} {calls : List (HandlerCall κ α)}
      (h : Updated p I n c (state, calls)) (state' : σ) : Updated p I n c (state', calls)

/-- In a run of `p`, the dispatch loop comes to `t` in the update that follows `n` others. -/
inductive Dispatches (p : Program κ α) (I : Interpreter κ α σ) :
    Nat → Pulse κ α (σ × List (HandlerCall κ α)) → Prop
  | first {n : Nat} {c : Cursor κ α} {s : σ × List (HandlerCall κ α)} (h : p.Updated I n c s)
      (unfinished : c.finished = false) (hip : c.ip < c.program.size) :
      Dispatches p I n (.ofCursor c s)
  | next {n : Nat} {t t' : Pulse κ α (σ × List (HandlerCall κ α))} (h : Dispatches p I n t)
      (hstep : t.step I.recorded = .ok (.next t')) : Dispatches p I n t'

variable {p : Program κ α} {I : Interpreter κ α σ} {n : Nat} {c : Cursor κ α}
  {t : Pulse κ α (σ × List (HandlerCall κ α))} {s : σ × List (HandlerCall κ α)}

theorem Updated.reachable (h : p.Updated I n c s) : c.Reachable p := by
  induction h with
  | start _ => exact .start
  | update _ hu ih => exact .update ih hu
  | change _ _ ih => exact ih

/-- Nothing that the interpreter does is left out of the recorded runs. -/
theorem Updated.next {state state' : σ} {calls : List (HandlerCall κ α)} {running : Bool}
    {c' : Cursor κ α} (h : p.Updated I n c (state, calls))
    (hu : c.update I state = .ok (running, c', state')) :
    ∃ calls', p.Updated I (n + 1) c' (state', calls') := by
  rw [c.update_recorded I state calls] at hu
  cases recorded : c.update I.recorded (state, calls) with
  | error crash =>
      rw [recorded] at hu
      cases hu
  | ok answered =>
      rw [recorded] at hu
      cases hu
      exact ⟨answered.2.2.2, .update h recorded⟩

/-- Before the first update the script is at the start of its program. -/
theorem Updated.eq_start (h : p.Updated I 0 c s) : c = .ofProgram p := by
  generalize hm : 0 = m at h
  induction h with
  | start _ => rfl
  | update _ _ _ => exact absurd hm (Nat.zero_ne_add_one _)
  | change _ _ ih => exact ih hm

theorem Dispatches.sound (h : p.Dispatches I n t) : t.Sound := by
  induction h with
  | first h unfinished _ => exact h.reachable.ready.sound unfinished _
  | next _ hstep ih => exact ((Pulse.outcome_of_step hstep).idle ih).1

theorem Dispatches.program (h : p.Dispatches I n t) : t.cursor.program = p := by
  induction h with
  | first h _ _ => exact h.reachable.canReach.1
  | next _ hstep ih => exact (Pulse.outcome_of_step hstep).leads.1.trans ih

/-- An update is the loop that the points of the run are taken from. -/
theorem Dispatches.update_eq (h : p.Dispatches I n t) {m : Nat}
    {o : Except Crash (Bool × Cursor κ α × σ × List (HandlerCall κ α))}
    (takes : Pulse.Takes I.recorded m t o) :
    ∃ c s, p.Updated I n c s ∧ c.update I.recorded s = o := by
  induction h generalizing m with
  | @first c s h unfinished hip =>
      refine ⟨c, s, h, ?_⟩
      obtain ⟨m', -, hticks⟩ := h.reachable.ticks I.recorded s
      generalize c.update I.recorded s = o' at hticks
      cases hticks with
      | finished finished =>
          rw [unfinished] at finished
          exact absurd finished (by simp)
      | offTape _ hoff => exact absurd hip (Nat.not_lt.mpr hoff)
      | dispatch _ _ takes' => exact (takes'.unique takes).2
  | next _ hstep ih => exact ih (.next hstep takes)

/-- The last step of a tick leads to the cursor that the next update starts from. -/
theorem Dispatches.updated (h : p.Dispatches I n t) {running : Bool}
    (hstep : t.step I.recorded = .ok (.done running c s)) : p.Updated I (n + 1) c s := by
  obtain ⟨c₀, s₀, hupdated, hu⟩ := h.update_eq (.done hstep)
  exact .update hupdated hu

/-- A script that has more after some updates was suspended by the last step of the last one. -/
theorem Updated.suspended {state : σ} {calls : List (HandlerCall κ α)}
    (h : p.Updated I (n + 1) c (state, calls)) (unfinished : c.finished = false) :
    ∃ t state', p.Dispatches I n t ∧ t.step I.recorded = .ok (.done true c (state', calls)) := by
  generalize hs : (state, calls) = s at h
  generalize hm : n + 1 = m at h
  induction h generalizing state with
  | start _ => cases hm
  | @update n' c₀ c' s₀ s' running h hu _ =>
      cases hm
      cases hs
      have settled := h.reachable.settles hu
      obtain ⟨m, -, hticks⟩ := h.reachable.ticks I.recorded s₀
      rw [hu] at hticks
      cases settled with
      | ended finished _ =>
          rw [finished] at unfinished
          exact absurd unfinished (by simp)
      | waits _ _ _ =>
          cases hticks with
          | dispatch unfinished₀ hip takes =>
              have first : p.Dispatches I n (.ofCursor c₀ s₀) := .first h unfinished₀ hip
              have next : ∀ t t', p.Dispatches I n t → t.step I.recorded = .ok (.next t') →
                  p.Dispatches I n t' := fun _ _ ht hstep => .next ht hstep
              obtain ⟨t, ht, hlast⟩ := takes.last next first rfl
              exact ⟨t, state, ht, hlast⟩
  | change h _ ih =>
      cases hs
      exact ih unfinished rfl hm

end Program

end Barrage
