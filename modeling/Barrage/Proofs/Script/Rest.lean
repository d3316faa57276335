/-
A cursor between two ticks.

After an update a script either waits on a timed or yielding instruction or it is over,
and the cursor shows which.  Waiting, it has spent at least one tick there and what it
remembers belongs to that instruction; over, it remembers nothing.

Within a tick the same two states alternate: an instruction is either gone on with,
which only the first of a tick can be, or begun with nothing remembered.  So the
invariant of a tick is `Pulse.Sound`, and its second case also says that the guard has
counted nothing yet.  That is why a script never runs into the guard while it waits.
-/
import Barrage.Proofs.Script.Fuel

namespace Barrage

variable {κ α σ : Type} [Vocabulary κ] [Scalar α]

namespace Cursor

/-- Nothing is remembered from an earlier tick. -/
structure Idle (c : Cursor κ α) : Prop where
  frame : c.frame = 0
  scratch : ∀ a : Nat, c.scratch[a]? = none

/-- The script waits on a timed or yielding instruction. -/
structure Waits (c : Cursor κ α) : Prop where
  here : ∃ i, c.program.get? c.ip = some i ∧
    (i.flow = .yielding ∨ i.flow = .timed ∧ c.frame ≤ i.duration)
  frame : 1 ≤ c.frame
  scratch : ∀ a : Nat, a ≠ c.ip → c.scratch[a]? = none

/-- What an update that answers with the given `running` leaves behind. -/
inductive Settled (c : Cursor κ α) : Bool → Prop
  | waits (unfinished : c.finished = false) (faultless : c.fault = none) (waits : c.Waits) :
      Settled c true
  | ended (finished : c.finished = true) (idle : c.Idle) : Settled c false

/-- A cursor from which an update may start. -/
structure Ready (c : Cursor κ α) : Prop where
  idle_of_finished : c.finished = true → c.Idle
  faultless : c.finished = false → c.fault = none
  rests : c.Idle ∨ c.Waits

theorem Settled.ready {c : Cursor κ α} {running : Bool} (h : c.Settled running) : c.Ready := by
  cases h with
  | waits unfinished faultless waits =>
      exact ⟨by simp [unfinished], fun _ => faultless, Or.inr waits⟩
  | ended finished idle => exact ⟨fun _ => idle, by simp [finished], Or.inl idle⟩

theorem ofProgram_idle (p : Program κ α) : (ofProgram p).Idle :=
  ⟨rfl, fun _ => Std.TreeMap.getElem?_emptyc⟩

theorem ofProgram_ready (p : Program κ α) : (ofProgram p).Ready :=
  ⟨fun _ => ofProgram_idle p, fun _ => rfl, Or.inl (ofProgram_idle p)⟩

/-! ### Leaving an instruction clears what it has left, holding it keeps that alone

These are the cursors that steps make out of a resting one.  What is remembered is a
table by positions; that it has at most the entry of the present instruction is why
erasing this one leaves none.
-/

/-- Everything that a resting cursor remembers belongs to the present instruction. -/
theorem scratch_of_rests {c : Cursor κ α} (h : c.Idle ∨ c.Waits) {a : Nat} (ha : a ≠ c.ip) :
    c.scratch[a]? = none := by
  rcases h with h | h
  · exact h.scratch a
  · exact h.scratch a ha

theorem erase_scratch {c : Cursor κ α} (h : c.Idle ∨ c.Waits) (a : Nat) :
    (c.scratch.erase c.ip)[a]? = none := by
  rw [Std.TreeMap.getElem?_erase]
  split
  · rfl
  · rename_i hne
    exact scratch_of_rests h fun heq => hne (by simp [heq])

theorem taken_scratch {c : Cursor κ α} (h : c.Idle ∨ c.Waits) (a : Nat) :
    c.taken.scratch[a]? = none :=
  erase_scratch h a

theorem advance_idle {c : Cursor κ α} (h : c.Idle ∨ c.Waits) : c.advance.Idle :=
  ⟨rfl, erase_scratch h⟩

theorem taken_advance_idle {c : Cursor κ α} (h : c.Idle ∨ c.Waits) : c.taken.advance.Idle := by
  refine ⟨rfl, fun a => ?_⟩
  show (c.taken.scratch.erase c.ip)[a]? = none
  rw [Std.TreeMap.getElem?_erase, taken_scratch h]
  simp

/-- What a held instruction has left behind is remembered for it and for no other. -/
theorem held_scratch {c : Cursor κ α} (h : c.Idle ∨ c.Waits) (scratch : Option (Scratch α))
    (a : Nat) : (c.taken.held scratch).scratch[a]? = if a = c.ip then scratch else none := by
  cases scratch with
  | none =>
      show c.taken.scratch[a]? = _
      simp [taken_scratch h]
  | some s =>
      show (c.taken.scratch.insert c.ip s)[a]? = _
      rw [Std.TreeMap.getElem?_insert, taken_scratch h]
      by_cases ha : a = c.ip
      · simp [ha]
      · have : ¬ c.ip = a := fun heq => ha heq.symm
        simp [ha, this]

theorem one_le_nextFrame {frame : Int32} (h : 0 ≤ frame) : 1 ≤ nextFrame frame := by
  unfold nextFrame
  have hmax : Int32.maxValue = 2147483647 := rfl
  split <;> grind

theorem nextFrame_le {frame duration : Int32} (h : 0 ≤ frame) (hleft : frame < duration) :
    nextFrame frame ≤ duration := by
  unfold nextFrame
  have hmax : Int32.maxValue = 2147483647 := rfl
  split <;> grind

/-- A waiting cursor has spent one more tick, within the span of a timed instruction. -/
theorem held_waits {c : Cursor κ α} (h : c.Idle ∨ c.Waits) {i : Instruction κ α}
    (hi : c.program.get? c.ip = some i)
    (hold : i.flow = .yielding ∨ i.flow = .timed ∧ c.frame < i.duration)
    (scratch : Option (Scratch α)) : (c.taken.held scratch).Waits := by
  have hframe : 0 ≤ c.frame := by
    rcases h with h | h
    · rw [h.frame]
      exact Int32.le_refl 0
    · exact Int32.le_trans (by decide) h.frame
  refine ⟨⟨i, hi, ?_⟩, one_le_nextFrame hframe, ?_⟩
  · rcases hold with hf | ⟨hf, hleft⟩
    · exact Or.inl hf
    · exact Or.inr ⟨hf, nextFrame_le hframe hleft⟩
  · intro a ha
    rw [held_scratch h scratch a]
    exact if_neg ha

end Cursor

/-! ### The invariant of a tick

`Sound` has two cases because the first instruction of a tick may have been begun before
it, and no other can have been.  Each way for a step to come out keeps the invariant if
the tick goes on, and leaves the cursor `Settled` if it does not.
-/

namespace Pulse

/-- What holds whenever an instruction is about to be dispatched. -/
structure Sound (t : Pulse κ α σ) : Prop where
  unfinished : t.cursor.finished = false
  faultless : t.cursor.fault = none
  visits : t.visits.size = t.cursor.program.size
  rests : t.cursor.Idle ∨ t.cursor.Waits ∧ t.visits = noVisits t.cursor.program

variable {I : Interpreter κ α σ} {t : Pulse κ α σ} {i : Instruction κ α}

theorem ofCursor_sound {c : Cursor κ α} {state : σ} (h : c.Idle ∨ c.Waits)
    (hfinished : c.finished = false) (hfault : c.fault = none) : (ofCursor c state).Sound := by
  refine ⟨hfinished, hfault, by simp [ofCursor, noVisits], ?_⟩
  rcases h with h | h
  · exact Or.inl h
  · exact Or.inr ⟨h, rfl⟩

theorem Sound.resting (h : t.Sound) : t.cursor.Idle ∨ t.cursor.Waits := by
  rcases h.rests with h | h
  · exact Or.inl h
  · exact Or.inr h.1

/-- On the first tick of its span an instruction finds nothing remembered. -/
theorem Sound.kept_first (h : t.Sound) (first : t.cursor.frame = 0) : t.kept = none := by
  rcases h.resting with idle | waits
  · exact idle.scratch _
  · exact absurd (first ▸ waits.frame) (by decide)

/-- An instruction that is not held until later is begun with nothing remembered. -/
theorem Sound.idle_of_flow (h : t.Sound) (hi : t.cursor.program.get? t.cursor.ip = some i)
    (hf : i.flow ≠ .yielding ∧ i.flow ≠ .timed) : t.cursor.Idle := by
  rcases h.rests with h | ⟨h, -⟩
  · exact h
  · obtain ⟨j, hj, hjf⟩ := h.here
    rw [hi, Option.some.injEq] at hj
    subst hj
    rcases hjf with hjf | ⟨hjf, -⟩
    · exact absurd hjf hf.1
    · exact absurd hjf hf.2

theorem seen_of_noVisits (h : t.visits = noVisits t.cursor.program)
    (hip : t.cursor.ip < t.cursor.program.size) : t.seen = 1 := by
  simp [seen, h, noVisits, Array.getElem_modify, hip]

theorem one_le_visits (size : Nat) : 1 ≤ Limits.visits size := by
  unfold Limits.visits
  omega

/-- The tick after a suspended one starts with the same instruction, and the guard lets it. -/
theorem Runs.again {σ' : Type} {c : Cursor κ α} {state : σ} (run : t.Runs i)
    (hstep : t.step I = .ok (.done true c state)) (state' : σ') : (ofCursor c state').Runs i := by
  obtain ⟨-, left, -, rfl⟩ := suspended_of_step run hstep
  have hseen : (ofCursor (t.cursor.taken.held left) state').seen = 1 :=
    seen_of_noVisits rfl (Program.lt_size_of_get? run.here)
  exact ⟨run.here, hseen ▸ one_le_visits _⟩

/-- And no other has suspended it. -/
theorem Runs.before {σ' : Type} {c : Cursor κ α} {state : σ} {state' : σ'}
    (run : (ofCursor c state').Runs i) (hstep : t.step I = .ok (.done true c state)) :
    t.Runs i := by
  cases outcome_of_step hstep with
  | pending run' _ _ =>
      obtain rfl := Option.some.inj (run.here.symm.trans run'.here)
      exact run'

/-- The guard never stops a script that waits. -/
theorem Sound.idle_of_runaway (h : t.Sound) (hi : t.cursor.program.get? t.cursor.ip = some i)
    (tooOften : Limits.visits t.cursor.program.size < t.seen) : t.cursor.Idle := by
  rcases h.rests with h | ⟨-, hvisits⟩
  · exact h
  · rw [seen_of_noVisits hvisits (Program.lt_size_of_get? hi)] at tooOften
    exact absurd (one_le_visits t.cursor.program.size) (Nat.not_le.mpr tooOften)

theorem idle_goto {c : Cursor κ α} (h : c.Idle) (s : Control) : (c.goto s).Idle :=
  ⟨h.frame, h.scratch⟩

/-- After a step the next instruction is begun with nothing remembered. -/
theorem Outcome.idle {t' : Pulse κ α σ} (out : Outcome I t (.next t')) (h : t.Sound) :
    t'.Sound ∧ t'.cursor.Idle := by
  cases out with
  | proceed run hf _ =>
      have idle := idle_goto (h.idle_of_flow run.here (by simp [hf]))
        { t.cursor.control with ip := t.cursor.ip + 1 }
      exact ⟨⟨h.unfinished, h.faultless, by simpa [counted] using h.visits, Or.inl idle⟩, idle⟩
  | finish _ _ _ _ =>
      have idle := Cursor.advance_idle h.resting
      exact ⟨ofCursor_sound (Or.inl idle) h.unfinished h.faultless, idle⟩
  | release _ _ _ =>
      have idle := Cursor.taken_advance_idle h.resting
      exact ⟨ofCursor_sound (Or.inl idle) h.unfinished h.faultless, idle⟩
  | @jump i c run hf hobey =>
      have hsame := (Cursor.obey_leads run.here hf hobey).same
      have idle : c.Idle := by
        rw [hsame]
        exact idle_goto (h.idle_of_flow run.here hf.not_held) _
      refine ⟨⟨?_, ?_, ?_, Or.inl idle⟩, idle⟩
      · show c.finished = false
        rw [hsame]
        exact h.unfinished
      · show c.fault = none
        rw [hsame]
        exact h.faultless
      · show (t.counted).visits.size = c.program.size
        rw [hsame]
        simpa [counted] using h.visits

/-- The last step of a tick leaves the cursor waiting or over. -/
theorem Outcome.settles {running : Bool} {c : Cursor κ α} {state : σ}
    (out : Outcome I t (.done running c state)) (h : t.Sound) : c.Settled running := by
  have idle : ∀ {c' : Cursor κ α}, t.cursor.Idle → c'.frame = t.cursor.frame →
      c'.scratch = t.cursor.scratch → c'.Idle := by
    intro c' hidle hframe hscratch
    exact ⟨hframe.trans hidle.frame, fun a => by rw [hscratch]; exact hidle.scratch a⟩
  cases out with
  | offTape hi =>
      rcases h.rests with hidle | ⟨hwaits, -⟩
      · exact .ended rfl (idle hidle rfl rfl)
      · obtain ⟨i, hi', -⟩ := hwaits.here
        rw [hi] at hi'
        exact absurd hi' (by simp)
  | runaway hi tooOften => exact .ended rfl (idle (h.idle_of_runaway hi tooOften) rfl rfl)
  | halt run hf _ => exact .ended rfl (idle (h.idle_of_flow run.here (by simp [hf])) rfl rfl)
  | pending run hold _ =>
      exact .waits h.unfinished h.faultless (Cursor.held_waits h.resting run.here hold _)
  | refused run hf _ =>
      exact .ended rfl (idle (h.idle_of_flow run.here hf.not_held) rfl rfl)
  | stop run hf => exact .ended rfl (idle (h.idle_of_flow run.here (by simp [hf])) rfl rfl)

/-- A whole tick leaves the cursor waiting or over. -/
theorem Takes.settles {n : Nat} {t : Pulse κ α σ} {o : Except Crash (Bool × Cursor κ α × σ)}
    (h : Takes I n t o) (sound : t.Sound) {running : Bool} {c : Cursor κ α} {state : σ}
    (ho : o = .ok (running, c, state)) : c.Settled running := by
  induction h with
  | crash _ => exact absurd ho (by simp)
  | done h =>
      cases ho
      exact (outcome_of_step h).settles sound
  | next h _ ih => exact ih ((outcome_of_step h).idle sound).1 ho

end Pulse

/-! ### Between ticks

The invariant of a tick holds at its start for a cursor that an update has settled, and
at the start of every program.  By induction over the updates it holds wherever a cursor
can be.
-/

namespace Cursor

variable {I : Interpreter κ α σ} {c c' : Cursor κ α} {state state' : σ} {running : Bool}

theorem Ready.sound (h : c.Ready) (hfinished : c.finished = false) (state : σ) :
    (Pulse.ofCursor c state).Sound :=
  Pulse.ofCursor_sound h.rests hfinished (h.faultless hfinished)

/-- A finished cursor has nothing left to do. -/
theorem update_finished (h : c.finished = true) (I : Interpreter κ α σ) (state : σ) :
    c.update I state = .ok (false, c, state) := by
  simp [update, h]

theorem Reachable.settles_of_ready {p : Program κ α} (hc : c.Reachable p) (ready : c.Ready)
    (hu : c.update I state = .ok (running, c', state')) : c'.Settled running := by
  obtain ⟨n, -, hticks⟩ := hc.ticks I state
  rw [hu] at hticks
  cases hticks with
  | finished h => exact .ended h (ready.idle_of_finished h)
  | offTape h hip =>
      rcases ready.rests with idle | waits
      · exact .ended rfl ⟨idle.frame, idle.scratch⟩
      · obtain ⟨i, hi, -⟩ := waits.here
        exact absurd (Program.lt_size_of_get? hi) (Nat.not_lt.mpr hip)
  | dispatch h _ takes => exact takes.settles (ready.sound h state) rfl

theorem Reachable.ready {p : Program κ α} (hc : c.Reachable p) : c.Ready := by
  induction hc with
  | start => exact ofProgram_ready p
  | update hc hu ih => exact (hc.settles_of_ready ih hu).ready

/-- Every update leaves the cursor waiting or over. -/
theorem Reachable.settles {p : Program κ α} (hc : c.Reachable p)
    (hu : c.update I state = .ok (running, c', state')) : c'.Settled running :=
  hc.settles_of_ready hc.ready hu

/-- An update of a script that is not over is a loop of steps, be it on its tape or off it. -/
theorem Reachable.takes {p : Program κ α} (h : c.Reachable p) (unfinished : c.finished = false)
    (I : Interpreter κ α σ) (state : σ) :
    ∃ n, Pulse.Takes I n (.ofCursor c state) (c.update I state) := by
  obtain ⟨n, -, hticks⟩ := h.ticks I state
  generalize c.update I state = o at hticks
  cases hticks with
  | finished finished =>
      exact absurd (unfinished.symm.trans finished) (by simp)
  | offTape _ hoff =>
      have hnone : c.program.get? c.ip = none := Array.getElem?_eq_none hoff
      exact ⟨1, .done (Pulse.step_offTape hnone)⟩
  | dispatch _ _ takes => exact ⟨n, takes⟩

/-- An update comes to what the loop without a bound comes to. -/
theorem Reachable.update_eq (hc : c.Reachable p) (unfinished : c.finished = false) {m : Nat}
    {o : Except Crash (Bool × Cursor κ α × σ)} (takes : Pulse.Takes I m (.ofCursor c state) o) :
    c.update I state = o := by
  obtain ⟨k, takes'⟩ := hc.takes unfinished I state
  exact (takes'.unique takes).2

/-- Runs a number of ticks, and lists what they answer. -/
def updates (I : Interpreter κ α σ) :
    Nat → Cursor κ α → σ → Except Crash (List Bool × Cursor κ α × σ)
  | 0, c, state => .ok ([], c, state)
  | k + 1, c, state => do
    let (running, c, state) ← c.update I state
    let (answers, c, state) ← updates I k c state
    return (running :: answers, c, state)

theorem updates_finished (h : c.finished = true) (I : Interpreter κ α σ) (k : Nat) (state : σ) :
    updates I k c state = .ok (List.replicate k false, c, state) := by
  induction k with
  | zero => rfl
  | succ k ih =>
      rw [updates, update_finished h]
      show (updates I k c state >>= _) = _
      rw [ih]
      rfl

/-- A cursor on the program `p` after an update that has answered `running`. -/
structure AtRest (p : Program κ α) (running : Bool) (c : Cursor κ α) : Prop where
  program : c.program = p
  ip : c.ip ≤ p.size
  running : running = true ↔ c.finished = false
  /-- A script that has more waits on a timed or yielding instruction, within its span. -/
  waits : c.finished = false → c.ip < p.size ∧ 1 ≤ c.frame ∧ ∃ i, p.get? c.ip = some i ∧
    (i.flow = .yielding ∨ i.flow = .timed ∧ c.frame ≤ i.duration)
  /-- A script that is over carries nothing along. -/
  ended : c.finished = true → c.frame = 0 ∧ c.scratch.isEmpty = true
  /-- Nor does it do anything any more, whatever interpreter it is given. -/
  inert : c.finished = true → ∀ (τ : Type) (J : Interpreter κ α τ) (s : τ),
    c.update J s = .ok (false, c, s)
  scratch : ∀ a ∈ c.scratch, a = c.ip
  loops : ∀ f ∈ c.loops, ∃ i, p.get? f.start = some i ∧ i.flow = .loopStart ∧
    1 ≤ f.remaining ∧ f.remaining ≤ i.count
  calls : ∀ back ∈ c.calls, 1 ≤ back ∧ back ≤ p.size ∧
    ∃ i, p.get? (back - 1) = some i ∧ i.flow = .call
  loops_le : c.loops.length ≤ 64
  calls_le : c.calls.length ≤ 64

theorem Idle.scratch_isEmpty {c : Cursor κ α} (h : c.Idle) : c.scratch.isEmpty = true := by
  rw [Std.TreeMap.isEmpty_iff_forall_not_mem]
  intro a ha
  rw [Std.TreeMap.mem_iff_isSome_getElem?, h.scratch a] at ha
  exact absurd ha (by simp)

/--
**The invariant of cursors.**  However many updates have run, under whatever
interpreters, the last of them leaves the cursor on its tape, with stacks that
refer to loops and calls of the tape, and either waiting within a span or over
with nothing left to do.
-/
theorem update_atRest {p : Program κ α} {c c' : Cursor κ α} (hc : c.Reachable p)
    {I : Interpreter κ α σ} {state state' : σ} {running : Bool}
    (hu : c.update I state = .ok (running, c', state')) : c'.AtRest p running := by
  have hc' : c'.Reachable p := .update hc hu
  obtain ⟨hp, hreach⟩ := hc'.canReach
  have onTape := hreach.onTape
  have settled := hc.settles hu
  refine {
    program := hp
    ip := onTape.ip
    running := ?_
    waits := ?_
    ended := ?_
    inert := fun hfinished τ J s => update_finished hfinished J s
    scratch := ?_
    loops := onTape.loops
    calls := ?_
    loops_le := hreach.fits.loops
    calls_le := hreach.fits.calls }
  · cases settled with
    | waits unfinished _ _ => simp [unfinished]
    | ended finished _ => simp [finished]
  · intro hunfinished
    cases settled with
    | waits _ _ waits =>
        obtain ⟨i, hi, hf⟩ := waits.here
        rw [hp] at hi
        exact ⟨Program.lt_size_of_get? hi, waits.frame, i, hi, hf⟩
    | ended finished _ =>
        rw [finished] at hunfinished
        exact absurd hunfinished (by simp)
  · intro hfinished
    have idle := settled.ready.idle_of_finished hfinished
    exact ⟨idle.frame, idle.scratch_isEmpty⟩
  · intro a ha
    by_contra hne
    rw [Std.TreeMap.mem_iff_isSome_getElem?, scratch_of_rests settled.ready.rests hne] at ha
    exact absurd ha (by simp)
  · intro back hback
    have hle := (onTape.calls back hback).le_size
    obtain ⟨i, hpos, hi, hf⟩ := onTape.calls back hback
    exact ⟨hpos, hle, i, hi, hf⟩

/-- A subroutine that takes three ticks, called in a loop of two passes. -/
def heldCall : Program Bullet.Kind Float32 :=
  .assemble #[.loopStart 2, .call "fan", .loopEnd, .stop, .wait 3, .ret] [("fan", 4)] (by decide)

theorem update_atRest_heldCall :
    let probe : Probe Bullet.Kind := ⟨[], #[], .capture⟩
    ∃ c' log, (ofProgram heldCall).update probe.interpreter ⟨#[], 0⟩ = .ok (true, c', log) ∧
      c'.ip = 4 ∧ c'.loops = [⟨0, 2⟩] ∧ c'.calls = [2] ∧ c'.AtRest heldCall true := by
  intro probe
  obtain ⟨c', log, hu, hip, hloops, hcalls⟩ : ∃ c' log,
      (ofProgram heldCall).update probe.interpreter ⟨#[], 0⟩ = .ok (true, c', log) ∧
        c'.ip = 4 ∧ c'.loops = [⟨0, 2⟩] ∧ c'.calls = [2] := ⟨_, _, rfl, rfl, rfl, rfl⟩
  exact ⟨c', log, hu, hip, hloops, hcalls, update_atRest .start hu⟩

end Cursor

end Barrage
