/-
The calls that one span is made of.

When the dispatch loop comes to a timed instruction it begins a span there.  The span
is one tick in each of the updates that follow, told by frames that count up from zero,
until its handler lets go or the duration is over.  A yielding instruction is held in
the same way, only that nothing but its handler ends it.

`HeldCalls` lists the calls of a span that is not over and `SpanCalls` those of one that
is.  The theorem says that every call belongs to a span begun somewhere before it, and
that the calls since then are the ones listed, one in each update.
-/
import Barrage.Proofs.Script.Record

namespace Barrage

variable {κ α σ : Type} [Vocabulary κ] [Scalar α]

/-! ### The frame is the number of ticks

The counter of frames stops at its largest value.  For a timed instruction this makes no
difference, since no duration is larger; a yielding one may be held for longer than that
and is told the same frame from then on.
-/

/-- The frame after `k` ticks; the counter of a yielding instruction stays at its largest value. -/
def frameAt (k : Nat) : Int32 :=
  Int32.ofNat (min k (2 ^ 31 - 1))

theorem frameAt_toInt (k : Nat) : (frameAt k).toInt = min k (2 ^ 31 - 1) := by
  unfold frameAt
  rw [Int32.toInt_ofNat_of_lt (by omega)]

theorem frameAt_ne_zero {k : Nat} (hk : k ≠ 0) : frameAt k ≠ 0 := by
  intro hzero
  have h := frameAt_toInt k
  rw [hzero, Int32.toInt_zero] at h
  omega

theorem nextFrame_frameAt (k : Nat) : nextFrame (frameAt k) = frameAt (k + 1) := by
  have hk := frameAt_toInt k
  have hk' := frameAt_toInt (k + 1)
  have hmax : Int32.maxValue.toInt = 2 ^ 31 - 1 := rfl
  rw [← Int32.toInt_inj]
  unfold nextFrame
  split
  · rename_i h
    rw [h] at hk ⊢
    omega
  · rename_i h
    rw [← Int32.toInt_inj] at h
    rw [Int32.toInt_add, Int32.toInt_one, Int.bmod_eq_of_le] <;> omega

/-- A frame is within a duration just when the ticks are; the counter never stops short of it. -/
theorem frameAt_lt {k : Nat} {duration : Int32} :
    frameAt k < duration ↔ k < duration.toNatClampNeg := by
  have hk := frameAt_toInt k
  have := duration.toInt_lt
  rw [Int32.lt_iff_toInt_lt, hk]
  unfold Int32.toNatClampNeg
  omega

/-! ### The calls of a span

Both are defined by the calls alone, without the loop that makes them: what is given to
a call is what the one before has left, and the number of ticks is the number of calls.
-/

/-- The call for the tick after `k` others. -/
def HandlerCall.tick (i : Instruction κ α) (k : Nat) (given : Option (Scratch α)) (answer : Hold)
    (left : Option (Scratch α)) : HandlerCall κ α :=
  .timed i (.run (frameAt k) i.duration (i.fraction (frameAt k))) given answer left

/-- The calls of a span that has been held for `k` ticks, the last of which has left `left`. -/
inductive HeldCalls (i : Instruction κ α) :
    Nat → Option (Scratch α) → List (HandlerCall κ α) → Prop
  | begin : HeldCalls i 0 none []
  | hold {k : Nat} {given : Option (Scratch α)} {calls : List (HandlerCall κ α)}
      (h : HeldCalls i k given calls) (within : i.flow = .timed → k < i.duration.toNatClampNeg)
      (left : Option (Scratch α)) :
      HeldCalls i (k + 1) left (calls ++ [.tick i k given .pending left])

/-- The calls of a span that is over. -/
inductive SpanCalls (i : Instruction κ α) : List (HandlerCall κ α) → Prop
  /-- The handler has let go on a tick. -/
  | release {k : Nat} {given : Option (Scratch α)} {calls : List (HandlerCall κ α)}
      (h : HeldCalls i k given calls) (within : i.flow = .timed → k < i.duration.toNatClampNeg)
      (left : Option (Scratch α)) : SpanCalls i (calls ++ [.tick i k given .release left])
  /-- The duration is over, whatever the handler answers to that. -/
  | finish {given : Option (Scratch α)} {calls : List (HandlerCall κ α)} (timed : i.flow = .timed)
      (h : HeldCalls i i.duration.toNatClampNeg given calls) (answer : Hold)
      (left : Option (Scratch α)) : SpanCalls i (calls ++ [.timed i .finish given answer left])

/-- No more ticks than the duration of a timed instruction has. -/
theorem HeldCalls.le_duration {i : Instruction κ α} {k : Nat} {left : Option (Scratch α)}
    {calls : List (HandlerCall κ α)} (h : HeldCalls i k left calls) (timed : i.flow = .timed) :
    k ≤ i.duration.toNatClampNeg := by
  cases h with
  | begin => exact Nat.zero_le _
  | hold _ within _ => exact within timed

/-! ### Where spans begin and how they last

A span is named by the point at which the loop begins it, not by its instruction, which
may be run again later.  `Lasts` follows it by the ends of ticks only, and between two
of these there is nothing to see of it because the next update starts where the last has
ended.
-/

/-- In the update after `n` others the loop comes to `t` from the start or another instruction. -/
inductive Program.Begins (p : Program κ α) (I : Interpreter κ α σ) :
    Nat → Pulse κ α (σ × List (HandlerCall κ α)) → Prop
  | first {c : Cursor κ α} {s : σ × List (HandlerCall κ α)} (h : p.Updated I 0 c s)
      (nonempty : 0 < p.size) : Begins p I 0 (.ofCursor c s)
  | next {n : Nat} {t t' : Pulse κ α (σ × List (HandlerCall κ α))} (h : p.Dispatches I n t)
      (hstep : t.step I.recorded = .ok (.next t')) : Begins p I n t'

/-- The `k` updates from the one of `t` on end where the loop has begun, and `t'` is in the next. -/
inductive Pulse.Lasts (I : Interpreter κ α σ) (t : Pulse κ α (σ × List (HandlerCall κ α))) :
    Nat → Pulse κ α (σ × List (HandlerCall κ α)) → Prop
  | begin : Lasts I t 0 t
  | again {k : Nat} {t' : Pulse κ α (σ × List (HandlerCall κ α))} {c : Cursor κ α} {state : σ}
      {calls : List (HandlerCall κ α)} (h : Lasts I t k t')
      (hstep : t'.step I.recorded = .ok (.done true c (state, calls))) (state' : σ) :
      Lasts I t (k + 1) (.ofCursor c (state', calls))

/-- At `t'` the span of `i` that has begun at `t` has been held for `k` ticks. -/
structure Pulse.InSpan (t : Pulse κ α (σ × List (HandlerCall κ α))) (i : Instruction κ α)
    (k : Nat) (t' : Pulse κ α (σ × List (HandlerCall κ α))) : Prop where
  runs : t'.Runs i
  ip : t'.cursor.ip = t.cursor.ip
  frame : t'.cursor.frame = frameAt k
  calls : ∃ calls, t'.state.2 = t.state.2 ++ calls ∧ HeldCalls i k t'.kept calls

/-- What the dispatch of `i` at `t'` adds to the span that has begun at `t`. -/
inductive Pulse.GoesOn (t : Pulse κ α (σ × List (HandlerCall κ α))) (i : Instruction κ α)
    (k : Nat) (t' : Pulse κ α (σ × List (HandlerCall κ α))) :
    Step κ α (σ × List (HandlerCall κ α)) → Prop
  /-- One more tick, which ends the update. -/
  | hold {state : σ} {calls : List (HandlerCall κ α)} {call : HandlerCall κ α}
      {left : Option (Scratch α)} (before : t'.state.2 = t.state.2 ++ calls)
      (held : HeldCalls i (k + 1) left (calls ++ [call])) :
      GoesOn t i k t'
        (.done true (t'.cursor.taken.held left) (state, t.state.2 ++ (calls ++ [call])))
  /-- The last call, after which the same update goes on with the next instruction. -/
  | leave {t'' : Pulse κ α (σ × List (HandlerCall κ α))} {calls : List (HandlerCall κ α)}
      {call : HandlerCall κ α} (before : t'.state.2 = t.state.2 ++ calls)
      (after : t''.state.2 = t.state.2 ++ (calls ++ [call])) (ended : SpanCalls i (calls ++ [call]))
      (next : t''.cursor.ip = t.cursor.ip + 1) : GoesOn t i k t' (.next t'')

/-! ### A dispatch makes the next call of the span

The step lemma: whether the call is one for a tick or the one at the end, and whether
the span goes on, depends on the frame and the answer alone.
-/

namespace Pulse

variable {I : Interpreter κ α σ} {i : Instruction κ α} {k : Nat}
  {t t' : Pulse κ α (σ × List (HandlerCall κ α))} {r : Step κ α (σ × List (HandlerCall κ α))}

/-- An instruction is held just when it yields or has ticks left. -/
theorem holds_iff_of_frame {t : Pulse κ α σ} (hframe : t.cursor.frame = frameAt k)
    (hf : i.flow = .timed ∨ i.flow = .yielding) :
    t.Holds i ↔ (i.flow = .timed → k < i.duration.toNatClampNeg) := by
  unfold Holds
  rw [hframe, frameAt_lt]
  rcases hf with hf | hf <;> simp [hf]

/-- A dispatch makes the next call of the span. -/
theorem InSpan.goesOn (h : InSpan t i k t') (hf : i.flow = .timed ∨ i.flow = .yielding)
    (hstep : t'.step I.recorded = .ok r) : GoesOn t i k t' r := by
  obtain ⟨calls, hbefore, hheld⟩ := h.calls
  by_cases hold : t'.Holds i
  · have within := (holds_iff_of_frame h.frame hf).mp hold
    obtain ⟨answer, left, ⟨state, after⟩, hcall, rfl⟩ := settled_of_step h.runs hold hstep
    have hcalls : after = t.state.2 ++ (calls ++ [.tick i k t'.kept answer left]) := by
      have := Interpreter.recorded_timed hcall
      rw [hbefore, List.append_assoc, h.frame] at this
      exact this
    rw [hcalls]
    cases answer with
    | pending => exact .hold hbefore (.hold hheld within left)
    | release => exact .leave hbefore rfl (.release hheld within left) (congrArg (· + 1) h.ip)
  · -- an instruction that is not held is a timed one at the end of its duration
    have hnot := mt (holds_iff_of_frame h.frame hf).mpr hold
    rw [Classical.not_imp] at hnot
    obtain ⟨timed, hnot⟩ := hnot
    have hk : k = i.duration.toNatClampNeg := by
      have := hheld.le_duration timed
      omega
    have hover : i.duration ≤ t'.cursor.frame := by
      rw [h.frame, ← Int32.not_lt, frameAt_lt]
      exact hnot
    obtain ⟨answer, left, state, hcall, rfl⟩ := advanced_of_step h.runs timed hover hstep
    have hcalls := Interpreter.recorded_timed hcall
    rw [hbefore, List.append_assoc] at hcalls
    rw [hk] at hheld
    exact .leave hbefore hcalls (.finish timed hheld answer left) (congrArg (· + 1) h.ip)

/-- The update after a tick of the span comes back to it at once. -/
theorem InSpan.again (h : InSpan t i k t') (sound : t'.Sound)
    (hf : i.flow = .timed ∨ i.flow = .yielding) {c : Cursor κ α} {state : σ}
    {calls : List (HandlerCall κ α)} (hstep : t'.step I.recorded = .ok (.done true c (state, calls)))
    (state' : σ) : InSpan t i (k + 1) (.ofCursor c (state', calls)) := by
  have goes := h.goesOn hf hstep
  cases goes with
  | @hold _ calls' call left before held =>
      have hkept : (t'.cursor.taken.held left).scratch[t'.cursor.ip]? = left := by
        rw [Cursor.held_scratch sound.resting]
        exact if_pos rfl
      refine ⟨h.runs.again hstep _, h.ip, ?_, calls' ++ [call], rfl, ?_⟩
      · show nextFrame t'.cursor.frame = _
        rw [h.frame, nextFrame_frameAt]
      · show HeldCalls i (k + 1) (t'.cursor.taken.held left).scratch[t'.cursor.ip]? _
        rw [hkept]
        exact held

end Pulse

/-! ### Every dispatch belongs to a span that was begun

In one direction a span is followed from its begin on, by induction on how many ticks it
lasts.  In the other a dispatch is traced back through the updates before it: what an update
dispatches first is what the update before has suspended, and everything else is begun where
it is dispatched.
-/

namespace Program

variable {p : Program κ α} {I : Interpreter κ α σ} {i : Instruction κ α} {n k : Nat}
  {t t' : Pulse κ α (σ × List (HandlerCall κ α))}

theorem Begins.dispatches (h : p.Begins I n t) : p.Dispatches I n t := by
  cases h with
  | first h nonempty =>
      obtain rfl := h.eq_start
      exact .first h rfl nonempty
  | next h hstep => exact .next h hstep

theorem Begins.idle (h : p.Begins I n t) : t.cursor.Idle := by
  cases h with
  | first h _ =>
      obtain rfl := h.eq_start
      exact Cursor.ofProgram_idle p
  | next h hstep => exact ((Pulse.outcome_of_step hstep).idle h.sound).2

theorem Begins.inSpan (h : p.Begins I n t) (run : t.Runs i) : t.InSpan i 0 t := by
  refine ⟨run, rfl, h.idle.frame, [], by simp, ?_⟩
  have hkept : t.kept = none := h.idle.scratch _
  rw [hkept]
  exact .begin

/-- A tick of a span is one update, and the next update starts with the next tick. -/
theorem Dispatches.again (h : p.Dispatches I n t) {c : Cursor κ α} {state : σ}
    {calls : List (HandlerCall κ α)} (hstep : t.step I.recorded = .ok (.done true c (state, calls)))
    (state' : σ) : p.Dispatches I (n + 1) (.ofCursor c (state', calls)) := by
  have settled := (Pulse.outcome_of_step hstep).settles h.sound
  cases settled with
  | waits unfinished _ waits =>
      obtain ⟨i, hi, -⟩ := waits.here
      exact .first (.change (h.updated hstep) state') unfinished (lt_size_of_get? hi)

/-- What a span comes to as long as it lasts. -/
theorem Begins.lasts (h : p.Begins I n t) (run : t.Runs i)
    (hf : i.flow = .timed ∨ i.flow = .yielding) (lasts : t.Lasts I k t') :
    p.Dispatches I (n + k) t' ∧ t.InSpan i k t' := by
  induction lasts with
  | begin => exact ⟨h.dispatches, h.inSpan run⟩
  | again _ hstep state' ih =>
      obtain ⟨hdispatches, hspan⟩ := ih
      exact ⟨hdispatches.again hstep state', hspan.again hdispatches.sound hf hstep state'⟩

/-- Every dispatch is part of what has begun somewhere before it. -/
theorem Dispatches.begun {m : Nat} (h : p.Dispatches I m t') (run : t'.Runs i) :
    ∃ n t k, m = n + k ∧ p.Begins I n t ∧ t.Runs i ∧ t.Lasts I k t' := by
  induction m generalizing t' with
  | zero =>
      cases h with
      | first h _ hip =>
          obtain rfl := h.eq_start
          exact ⟨0, _, 0, rfl, .first h hip, run, .begin⟩
      | next h hstep => exact ⟨0, _, 0, rfl, .next h hstep, run, .begin⟩
  | succ m ih =>
      cases h with
      | next h hstep => exact ⟨m + 1, _, 0, rfl, .next h hstep, run, .begin⟩
      | @first c s h unfinished hip =>
          obtain ⟨state, calls⟩ := s
          obtain ⟨t₀, state', ht₀, hstep⟩ := h.suspended unfinished
          obtain ⟨n, t, k, rfl, hbegins, hrun, hlasts⟩ := ih ht₀ (run.before hstep)
          exact ⟨n, t, k + 1, rfl, hbegins, hrun, .again hlasts hstep state⟩

/--
**The contract of spans.**  Every dispatch of a timed or yielding instruction belongs
to a span that has begun at that instruction, in one of the updates before.  The span
comes back in each of the updates after its begin until it is over, and the calls
made since its begin are those that `HeldCalls` lists, with nothing in between:  the
dispatch adds one more tick, which ends its update, or the last call of the span,
after which the same update goes on with the next instruction.
-/
theorem span_contract (hf : i.flow = .timed ∨ i.flow = .yielding) :
    (∀ m t', p.Dispatches I m t' → t'.Runs i →
      ∃ n t k, m = n + k ∧ p.Begins I n t ∧ t.Runs i ∧ t.Lasts I k t') ∧
    (∀ n t k t', p.Begins I n t → t.Runs i → t.Lasts I k t' →
      p.Dispatches I (n + k) t' ∧ t.InSpan i k t' ∧
        ∀ r, t'.step I.recorded = .ok r → t.GoesOn i k t' r) := by
  refine ⟨fun m t' h run => h.begun run, ?_⟩
  intro n t k t' hbegins run hlasts
  obtain ⟨hdispatches, hspan⟩ := hbegins.lasts run hf hlasts
  exact ⟨hdispatches, hspan, fun r hstep => hspan.goesOn hf hstep⟩

/-- A wait of two ticks and nothing else. -/
def shortWait : Program Bullet.Kind Float32 :=
  .ofInstructions [.wait 2]

theorem span_contract_shortWait :
    let I : Interpreter Bullet.Kind Float32 _ :=
      (⟨[], #[], .capture⟩ : Probe Bullet.Kind).interpreter
    let t : Pulse Bullet.Kind Float32 _ := .ofCursor (.ofProgram shortWait) (⟨#[], 0⟩, [])
    ∃ t', shortWait.Dispatches I 1 t' ∧ t.InSpan (.wait 2) 1 t' ∧ t'.kept.isSome ∧
      ∀ r, t'.step I.recorded = .ok r → t.GoesOn (.wait 2) 1 t' r := by
  intro I t
  have begins : shortWait.Begins I 0 t := .first (.start _) (by decide)
  have run : t.Runs (.wait 2) := ⟨rfl, by decide⟩
  obtain ⟨c, state, calls, hstep, hkept⟩ : ∃ c state calls,
      t.step I.recorded = .ok (.done true c (state, calls)) ∧ c.scratch[c.ip]?.isSome :=
    ⟨_, _, _, rfl, rfl⟩
  obtain ⟨hdispatches, hspan, hgoes⟩ :=
    (span_contract (Or.inl rfl)).2 0 t 1 _ begins run (.again .begin hstep state)
  exact ⟨_, hdispatches, hspan, hkept, hgoes⟩

end Program

end Barrage
