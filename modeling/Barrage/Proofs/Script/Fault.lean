/-
When a script is stopped by an error, and what it has done until then.

Two things can stop a script.  A control instruction may be refused; `Cursor.Refuses`
has one case for each of the reasons.  And the guard may find that the instruction has
been visited too often.  What the guard counts is an array of numbers that a tick
carries along and clears from time to time.  Here it is tied to the history of the
tick: `DispatchesSince` lists the positions dispatched since the last progress, and the
array counts how often each position is on that list.

In either case the cursor is left as it was when the instruction was fetched.
-/
import Barrage.Proofs.Script.Record

namespace Barrage

variable {κ α σ : Type} [Vocabulary κ] [Scalar α]

/-! ### The reasons for a refusal

The cases exclude one another, by the flow of the instruction or by what is declared, so the
order in which the dispatch loop makes its tests does not show.  The depths can be exact
numbers because neither stack ever gets past its limit.
-/

namespace Cursor

/-- The reasons for which an instruction is refused at a cursor. -/
inductive Refuses (c : Cursor κ α) (i : Instruction κ α) : ScriptError → Prop
  | unknownSubroutine (hf : i.flow = .call) (undeclared : c.program.position? i.label = none) :
      Refuses c i (.unknownSubroutine c.ip i.label)
  | callStackOverflow {target : Nat} (hf : i.flow = .call)
      (declared : c.program.position? i.label = some target) (full : c.calls.length = 64) :
      Refuses c i (.callStackOverflow c.ip 64)
  | returnWithoutCall (hf : i.flow = .ret) (empty : c.calls = []) :
      Refuses c i (.returnWithoutCall c.ip)
  | loopStackOverflow (hf : i.flow = .loopStart) (positive : 0 < i.count)
      (full : c.loops.length = 64) : Refuses c i (.loopStackOverflow c.ip 64)

variable {c : Cursor κ α} {i : Instruction κ α} {e : ScriptError}

theorem Refuses.position (h : c.Refuses i e) : e.position = c.ip := by
  cases h <;> rfl

theorem Refuses.jumps (h : c.Refuses i e) : i.flow.Jumps := by
  cases h with
  | unknownSubroutine hf _ => exact Or.inr (Or.inr (Or.inl hf))
  | callStackOverflow hf _ _ => exact Or.inr (Or.inr (Or.inl hf))
  | returnWithoutCall hf _ => exact Or.inr (Or.inr (Or.inr hf))
  | loopStackOverflow hf _ _ => exact Or.inl hf

theorem startLoop_refuses (fits : c.control.Fits) (hf : i.flow = .loopStart)
    (h : c.startLoop i.count = .error e) : c.Refuses i e := by
  simp only [startLoop] at h
  split at h
  · exact absurd h (by simp)
  · rename_i hpositive
    split at h
    · rename_i hdeep
      have hfull : c.loops.length = 64 := Nat.le_antisymm fits.loops hdeep
      rw [hfull, Except.error.injEq] at h
      exact h ▸ .loopStackOverflow hf (Int32.not_le.mp hpositive) hfull
    · exact absurd h (by simp)

theorem enter_refuses (fits : c.control.Fits) (hf : i.flow = .call)
    (h : c.enter i.label = .error e) : c.Refuses i e := by
  simp only [enter] at h
  split at h
  · rename_i hundeclared
    rw [Except.error.injEq] at h
    exact h ▸ .unknownSubroutine hf hundeclared
  · rename_i target hdeclared
    split at h
    · rename_i hdeep
      have hfull : c.calls.length = 64 := Nat.le_antisymm fits.calls hdeep
      rw [hfull, Except.error.injEq] at h
      exact h ▸ .callStackOverflow hf hdeclared hfull
    · exact absurd h (by simp)

theorem leave_refuses (hf : i.flow = .ret) (h : c.leave = .error e) : c.Refuses i e := by
  simp only [leave] at h
  split at h
  · rename_i hempty
    rw [Except.error.injEq] at h
    exact h ▸ .returnWithoutCall hf hempty
  · exact absurd h (by simp)

/-- A control instruction is refused for one of the reasons listed, and for each of them. -/
theorem obey_error_iff (fits : c.control.Fits) : c.obey i = .error e ↔ c.Refuses i e := by
  constructor
  · intro h
    simp only [obey] at h
    split at h
    · rename_i hf
      exact startLoop_refuses fits hf h
    · exact absurd h (by simp)
    · rename_i hf
      exact enter_refuses fits hf h
    · rename_i hf
      exact leave_refuses hf h
    all_goals exact absurd h (by simp)
  · intro h
    cases h with
    | unknownSubroutine hf hundeclared => simp [obey, hf, enter, hundeclared]
    | callStackOverflow hf hdeclared hfull =>
        simp [obey, hf, enter, hdeclared, hfull, Limits.callDepth]
    | returnWithoutCall hf hempty => simp [obey, hf, leave, hempty]
    | loopStackOverflow hf hpositive hfull =>
        have hnot : ¬ i.count ≤ 0 := Int32.not_le.mpr hpositive
        simp [obey, hf, startLoop, hnot, hfull, Limits.loopDepth]

end Cursor

/-! ### An error leaves the cursor as it was fetched

Both ways to stop look at the instruction before anything is done to the cursor, so
besides the error and the end there is nothing to say of it.  The same case analysis
gives what the guard has been told when the script goes on.
-/

namespace Pulse

variable {I : Interpreter κ α σ} {t : Pulse κ α σ} {i : Instruction κ α} {e : ScriptError}

/-- A step stops the script with an error because of the guard or because it is refused, and
leaves everything else as it was. -/
theorem Outcome.of_fault {running : Bool} {c : Cursor κ α} {state : σ}
    (out : Outcome I t (.done running c state)) (sound : t.Sound) (fits : t.cursor.control.Fits)
    (hi : t.cursor.program.get? t.cursor.ip = some i) (hfault : c.fault = some e) :
    c = t.cursor.abort e ∧ state = t.state ∧
      (Limits.visits t.cursor.program.size < t.seen ∧ e = .runawayDispatch t.cursor.ip t.seen ∨
        t.seen ≤ Limits.visits t.cursor.program.size ∧ t.cursor.Refuses i e) := by
  have faultless : t.cursor.fault ≠ some e := by simp [sound.faultless]
  cases out with
  | offTape _ => exact absurd hfault faultless
  | runaway _ tooOften =>
      obtain rfl : _ = e := Option.some.inj hfault
      exact ⟨rfl, rfl, Or.inl ⟨tooOften, rfl⟩⟩
  | halt _ _ _ => exact absurd hfault faultless
  | pending _ _ _ => exact absurd hfault faultless
  | refused run _ refuses =>
      obtain rfl : _ = e := Option.some.inj hfault
      rw [run.here, Option.some.injEq] at hi
      exact ⟨rfl, rfl, Or.inr ⟨run.allowed, hi ▸ (Cursor.obey_error_iff fits).mp refuses⟩⟩
  | stop _ _ => exact absurd hfault faultless

/-- Off the tape there is nothing that could be an error. -/
theorem Outcome.on_tape {running : Bool} {c : Cursor κ α} {state : σ}
    (out : Outcome I t (.done running c state)) (sound : t.Sound) (hfault : c.fault = some e) :
    ∃ i, t.cursor.program.get? t.cursor.ip = some i := by
  cases hi : t.cursor.program.get? t.cursor.ip with
  | some i => exact ⟨i, rfl⟩
  | none =>
      cases out with
      | offTape _ => exact absurd hfault (by simp [Cursor.finish, sound.faultless])
      | runaway hi' _ => exact absurd (hi.symm.trans hi') (by simp)
      | halt run _ _ => exact absurd (hi.symm.trans run.here) (by simp)
      | pending run _ _ => exact absurd (hi.symm.trans run.here) (by simp)
      | refused run _ _ => exact absurd (hi.symm.trans run.here) (by simp)
      | stop run _ => exact absurd (hi.symm.trans run.here) (by simp)

/-- A step after which the tick goes on has run an instruction, and the guard has been told: it
starts counting anew after a timed or yielding one. -/
theorem Outcome.counts {t' : Pulse κ α σ} (out : Outcome I t (.next t')) :
    ∃ i, t.Runs i ∧ t'.visits =
      if i.flow = .timed ∨ i.flow = .yielding then noVisits t.cursor.program
      else t.counted.visits := by
  cases out with
  | proceed run hf _ => exact ⟨_, run, by simp [hf]⟩
  | finish run hf _ _ => exact ⟨_, run, by simp [hf]; rfl⟩
  | release run hold _ =>
      rcases hold with hf | ⟨hf, -⟩
      · exact ⟨_, run, by simp [hf]; rfl⟩
      · exact ⟨_, run, by simp [hf]; rfl⟩
  | jump run hf _ => exact ⟨_, run, by simp [hf.not_held]⟩

theorem step_refused (run : t.Runs i) (fits : t.cursor.control.Fits)
    (refuses : t.cursor.Refuses i e) :
    t.step I = .ok (.done false (t.cursor.abort e) t.state) := by
  rw [step_jump run refuses.jumps, (Cursor.obey_error_iff fits).mpr refuses]
  rfl

end Pulse

/-! ### The guard counts what was dispatched since the last progress

An array of visits says how often a position was counted, not by what.
`DispatchesSince` is the run with the list of positions written next to it, and
`Counted` ties the two together.  It is kept because every step adds the position it
dispatches to both, or clears both.
-/

namespace Program

variable {p : Program κ α} {I : Interpreter κ α σ} {n : Nat} {since : List Nat}
  {t : Pulse κ α (σ × List (HandlerCall κ α))} {i : Instruction κ α}

/-- In a run of `p`, the dispatch loop comes to `t` in the update that follows `n` others, and
`since` are the positions that it has dispatched in this update after the last timed or
yielding instruction left behind, or from its start, the latest first. -/
inductive DispatchesSince (p : Program κ α) (I : Interpreter κ α σ) :
    Nat → List Nat → Pulse κ α (σ × List (HandlerCall κ α)) → Prop
  | first {n : Nat} {c : Cursor κ α} {s : σ × List (HandlerCall κ α)} (h : p.Updated I n c s)
      (unfinished : c.finished = false) (hip : c.ip < c.program.size) :
      DispatchesSince p I n [] (.ofCursor c s)
  | next {n : Nat} {since : List Nat} {t t' : Pulse κ α (σ × List (HandlerCall κ α))}
      {i : Instruction κ α} (h : DispatchesSince p I n since t)
      (hi : p.get? t.cursor.ip = some i) (hstep : t.step I.recorded = .ok (.next t')) :
      DispatchesSince p I n
        (if i.flow = .timed ∨ i.flow = .yielding then [] else t.cursor.ip :: since) t'

theorem DispatchesSince.dispatches (h : p.DispatchesSince I n since t) : p.Dispatches I n t := by
  induction h with
  | first h unfinished hip => exact .first h unfinished hip
  | next _ _ hstep ih => exact .next ih hstep

theorem Dispatches.canReach (h : p.Dispatches I n t) : p.CanReach t.cursor.control := by
  induction h with
  | first h _ _ => exact h.reachable.canReach.2
  | next h hstep ih =>
      obtain ⟨-, hnext, hfits⟩ := (Pulse.outcome_of_step hstep).leads
      rw [h.program] at hnext
      exact .next ih hnext (hfits ih.fits)

/-- How often the list of what has been dispatched names a position, as the guard counts it. -/
structure Counted (size : Nat) (since : List Nat) (visits : Array Nat) : Prop where
  counts : ∀ a < size, visits[a]? = some (since.count a)
  within : ∀ a, since.count a ≤ Limits.visits size

theorem noVisits_counted (p : Program κ α) : Counted p.size [] (Pulse.noVisits p) :=
  ⟨fun a ha => by simp [Pulse.noVisits, ha], fun a => by simp⟩

theorem Counted.seen_eq {t : Pulse κ α σ} (h : Counted t.cursor.program.size since t.visits)
    (hip : t.cursor.ip < t.cursor.program.size) : t.seen = since.count t.cursor.ip + 1 := by
  simp [Pulse.seen, Array.getElem?_modify, h.counts _ hip]

/-- The guard counts one visit more for the position that is dispatched. -/
theorem Counted.cons {t : Pulse κ α σ} (h : Counted t.cursor.program.size since t.visits)
    (run : t.Runs i) :
    Counted t.cursor.program.size (t.cursor.ip :: since) t.counted.visits := by
  have hseen := h.seen_eq (lt_size_of_get? run.here)
  refine ⟨fun a ha => ?_, fun a => ?_⟩
  · by_cases heq : t.cursor.ip = a
    · simp [Pulse.counted, Array.getElem?_modify, heq, h.counts a ha]
    · simp [Pulse.counted, Array.getElem?_modify, heq, h.counts a ha]
  · by_cases heq : t.cursor.ip = a
    · subst heq
      rw [List.count_cons_self, ← hseen]
      exact run.allowed
    · rw [List.count_cons_of_ne heq]
      exact h.within a

/-- The guard counts what has been dispatched since the last progress. -/
theorem DispatchesSince.counted (h : p.DispatchesSince I n since t) :
    Counted p.size since t.visits := by
  induction h with
  | first h _ _ =>
      have hp := h.reachable.canReach.1
      have := noVisits_counted p
      simpa [Pulse.ofCursor, hp] using this
  | @next _ _ t' i h hi hstep ih =>
      obtain ⟨j, run, hvisits⟩ := (Pulse.outcome_of_step hstep).counts
      have hp := h.dispatches.program
      obtain rfl : j = i := by
        have := run.here
        rw [hp, hi, Option.some.injEq] at this
        exact this.symm
      rw [hvisits, ← hp]
      rw [← hp] at ih
      split
      · exact noVisits_counted _
      · exact ih.cons run

/-! ### A dispatch faults just for the guard or a refusal

The guard is looked at before the instruction is obeyed, so a visit too many hides a
refusal of the same instruction and not the other way round.
-/

/-- The errors that stop the script at an instruction: the guard comes first. -/
inductive FaultsAt (p : Program κ α) (since : List Nat) (c : Cursor κ α) (i : Instruction κ α) :
    ScriptError → Prop
  | runaway (tooOften : since.count c.ip = p.size + 1) :
      FaultsAt p since c i (.runawayDispatch c.ip (p.size + 2))
  | refused {e : ScriptError} (allowed : since.count c.ip ≠ p.size + 1) (refuses : c.Refuses i e) :
      FaultsAt p since c i e

theorem FaultsAt.position {c : Cursor κ α} {e : ScriptError} (h : p.FaultsAt since c i e) :
    e.position = c.ip := by
  cases h with
  | runaway _ => rfl
  | refused _ refuses => exact refuses.position

/-- The number of visits after which the guard steps in. -/
theorem visits_of_short {size : Nat} (short : size < 2 ^ 32 - 2) :
    Limits.visits size = size + 1 := by
  unfold Limits.visits
  omega

/-- A dispatched instruction stops the script just for the errors listed. -/
theorem DispatchesSince.fault_iff (short : p.size < 2 ^ 32 - 2) (h : p.DispatchesSince I n since t)
    (hi : p.get? t.cursor.ip = some i) {e : ScriptError} :
    (∃ running c s, t.step I.recorded = .ok (.done running c s) ∧ c.fault = some e) ↔
      p.FaultsAt since t.cursor i e := by
  have hp := h.dispatches.program
  have sound := h.dispatches.sound
  have fits := h.dispatches.canReach.fits
  have hlimit := visits_of_short short
  have hwithin := h.counted.within t.cursor.ip
  have hseen : t.seen = since.count t.cursor.ip + 1 :=
    Counted.seen_eq (hp ▸ h.counted) (hp ▸ lt_size_of_get? hi)
  have hi' : t.cursor.program.get? t.cursor.ip = some i := hp ▸ hi
  constructor
  · rintro ⟨running, c, s, hstep, hfault⟩
    obtain ⟨-, -, ⟨tooOften, rfl⟩ | ⟨allowed, refuses⟩⟩ :=
      (Pulse.outcome_of_step hstep).of_fault sound fits hi' hfault
    · have hcount : since.count t.cursor.ip = p.size + 1 := by
        rw [hp] at tooOften
        omega
      rw [hseen, hcount]
      exact .runaway hcount
    · refine .refused ?_ refuses
      rw [hp] at allowed
      omega
  · intro hfaults
    cases hfaults with
    | runaway tooOften =>
        have hover : Limits.visits t.cursor.program.size < t.seen := by
          rw [hp]
          omega
        refine ⟨_, _, _, Pulse.step_runaway hi' hover, ?_⟩
        rw [hseen, tooOften]
        rfl
    | refused allowed refuses =>
        have run : t.Runs i := ⟨hi', by rw [hp]; omega⟩
        exact ⟨_, _, _, Pulse.step_refused run fits refuses, rfl⟩

/-- A cursor that carries an error has got it from the last step of one of the updates. -/
theorem Updated.faulted {c : Cursor κ α} {s : σ × List (HandlerCall κ α)} {e : ScriptError}
    (h : p.Updated I n c s) (hfault : c.fault = some e) :
    ∃ m since t s', m < n ∧ p.DispatchesSince I m since t ∧
      t.step I.recorded = .ok (.done false c s') ∧ s.2 = s'.2 := by
  induction h with
  | start _ => exact absurd hfault (by simp [Cursor.ofProgram])
  | @update n c c' s s' running h hu ih =>
      have ready := h.reachable.ready
      obtain ⟨k, -, hticks⟩ := h.reachable.ticks I.recorded s
      rw [hu] at hticks
      cases hticks with
      | finished _ =>
          obtain ⟨m, since, t, s', hm, hrest⟩ := ih hfault
          exact ⟨m, since, t, s', Nat.lt_succ_of_lt hm, hrest⟩
      | offTape unfinished _ =>
          exact absurd hfault (by simp [Cursor.finish, ready.faultless unfinished])
      | dispatch unfinished hip takes =>
          have next : ∀ t t', (∃ since, p.DispatchesSince I n since t) →
              t.step I.recorded = .ok (.next t') → ∃ since, p.DispatchesSince I n since t' := by
            rintro t t' ⟨since, ht⟩ hstep
            obtain ⟨i, run, -⟩ := (Pulse.outcome_of_step hstep).counts
            exact ⟨_, .next ht (ht.dispatches.program ▸ run.here) hstep⟩
          obtain ⟨t, ⟨since, ht⟩, hlast⟩ := takes.last next ⟨[], .first h unfinished hip⟩ rfl
          have settled := (Pulse.outcome_of_step hlast).settles ht.dispatches.sound
          cases settled with
          | waits _ faultless _ => exact absurd hfault (by simp [faultless])
          | ended _ _ => exact ⟨n, since, t, s', Nat.lt_succ_self n, ht, hlast, rfl⟩
  | change _ _ ih => exact ih hfault

/--
**Errors are precise, and what they stop has no effect.**  A cursor that carries an
error got it when the instruction at its position was fetched for the last time: it is
on the tape, no handler has been called since, and but for the error and the end of the
script nothing about the cursor has changed.  And whenever an instruction is fetched,
the script is stopped for exactly the errors that `FaultsAt` lists, the guard first.
-/
theorem fault_contract (short : p.size < 2 ^ 32 - 2) (I : Interpreter κ α σ) :
    (∀ n c s e, p.Updated I n c s → c.fault = some e →
      e.position = c.ip ∧ c.ip < p.size ∧
        ∃ m since t i, m < n ∧ p.DispatchesSince I m since t ∧
          p.get? t.cursor.ip = some i ∧ p.FaultsAt since t.cursor i e ∧
          t.step I.recorded = .ok (.done false c t.state) ∧ s.2 = t.state.2 ∧
          c = { t.cursor with fault := some e, finished := true }) ∧
    (∀ n since t i e, p.DispatchesSince I n since t → p.get? t.cursor.ip = some i →
      ((∃ running c s, t.step I.recorded = .ok (.done running c s) ∧ c.fault = some e) ↔
        p.FaultsAt since t.cursor i e)) := by
  refine ⟨?_, fun n since t i e h hi => h.fault_iff short hi⟩
  intro n c s e h hfault
  obtain ⟨m, since, t, s', hm, ht, hlast, hcalls⟩ := h.faulted hfault
  have out := Pulse.outcome_of_step hlast
  obtain ⟨i, hi⟩ := out.on_tape ht.dispatches.sound hfault
  obtain ⟨rfl, rfl, -⟩ := out.of_fault ht.dispatches.sound ht.dispatches.canReach.fits hi hfault
  rw [ht.dispatches.program] at hi
  have hfaults := (ht.fault_iff short hi).mp ⟨false, _, _, hlast, rfl⟩
  exact ⟨hfaults.position, lt_size_of_get? hi, m, since, t, i, hm, ht, hi, hfaults, hlast, hcalls,
    rfl⟩

/-- A loop that makes no progress. -/
def idleLoop : Program Bullet.Kind Float32 :=
  .ofInstructions [.loopStart 9, Bullet.Command.setSpeed 1.0, .loopEnd]

theorem fault_contract_idleLoop :
    let I : Interpreter Bullet.Kind Float32 _ := (⟨[], #[], .keep⟩ : Probe Bullet.Kind).interpreter
    idleLoop.size < 2 ^ 32 - 2 ∧ ∃ c s, idleLoop.Updated I 1 c s ∧
      c.fault = some (.runawayDispatch 1 5) ∧
      ∃ since t, idleLoop.DispatchesSince I 0 since t ∧ since.count 1 = 4 ∧
        t.step I.recorded = .ok (.done false c t.state) := by
  intro I
  have short : idleLoop.size < 2 ^ 32 - 2 := by decide
  obtain ⟨c, s, hu, hfault⟩ : ∃ c s,
      (Cursor.ofProgram idleLoop).update I.recorded (⟨#[], 0⟩, []) = .ok (false, c, s) ∧
        c.fault = some (.runawayDispatch 1 5) := ⟨_, _, rfl, rfl⟩
  have updated : idleLoop.Updated I 1 c s := .update (.start _) hu
  obtain ⟨hposition, -, m, since, t, i, hm, ht, -, hfaults, hstep, -, hc⟩ :=
    (fault_contract short I).1 1 c s _ updated hfault
  obtain rfl : m = 0 := by omega
  have hip : t.cursor.ip = 1 := by
    rw [hc] at hposition
    exact hposition.symm
  refine ⟨short, c, s, updated, hfault, since, t, ht, ?_, hstep⟩
  generalize herror : ScriptError.runawayDispatch 1 5 = e at hfaults
  cases hfaults with
  | runaway tooOften => rw [← hip, tooOften]; rfl
  | refused _ refuses => cases refuses <;> cases herror

end Program

end Barrage
