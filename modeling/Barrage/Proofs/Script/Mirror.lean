/-
A tape without control does the same as the script that it was unrolled from.

The tape without control only ever moves forward, and each of its instructions is visited
once.  Its cursor mirrors that of the compiled script when the instructions before it are
those that remain there, and both have spent the same ticks on the present instruction
and remember the same of it.  A jump of the script leaves the mirror where it is; every
other step is made on both tapes, with the same call of a handler.

Only the guard and the limits of the stacks, which the tape without control never comes
to, can make a difference, and then the script has recorded a fault.
-/
import Barrage.Proofs.Script.Record
import Barrage.Proofs.Script.Unrolling

namespace Barrage

variable {κ α σ : Type} [Vocabulary κ] [Scalar α]

/-- The same instructions are before `d`, on a tape without control, as remain at `c`. -/
structure Cursor.Mirrors (c d : Cursor κ α) : Prop where
  remains : c.program.Remains c.control (d.program.code.toList.drop d.ip)
  frame : d.frame = c.frame
  kept : d.scratch[d.ip]? = c.scratch[c.ip]?

/-- The same within a tick; the mirror has not visited any of the instructions before it. -/
structure Pulse.Mirrors (t u : Pulse κ α σ) : Prop where
  cursor : t.cursor.Mirrors u.cursor
  state : u.state = t.state
  ahead : ∀ a, u.cursor.ip ≤ a → u.visits[a]?.getD 0 = 0
  script : t.Sound
  mirror : u.Sound

namespace Pulse

/-- What a step comes to of which `u` is the mirror. -/
inductive Matches (I : Interpreter κ α σ) (u : Pulse κ α σ) : Except Crash (Step κ α σ) → Prop
  | crash {e : Crash} (hstep : u.step I = .error e) : Matches I u (.error e)
  | fault {c : Cursor κ α} {state : σ} (finished : c.finished = true) (fault : c.fault ≠ none) :
      Matches I u (.ok (.done false c state))
  | ended {c d : Cursor κ α} {state : σ} (hstep : u.step I = .ok (.done false d state))
      (finished : c.finished = true) (finished' : d.finished = true) :
      Matches I u (.ok (.done false c state))
  | waits {c d : Cursor κ α} {state : σ} (hstep : u.step I = .ok (.done true d state))
      (unfinished : c.finished = false) (unfinished' : d.finished = false) (h : c.Mirrors d) :
      Matches I u (.ok (.done true c state))
  /-- A jump, which is not on the tape without control. -/
  | jump {t' : Pulse κ α σ} (h : t'.Mirrors u) : Matches I u (.ok (.next t'))
  | next {t' u' : Pulse κ α σ} (hstep : u.step I = .ok (.next u')) (h : t'.Mirrors u') :
      Matches I u (.ok (.next t'))

variable {I : Interpreter κ α σ} {t u t' u' : Pulse κ α σ} {i : Instruction κ α}
  {rest : List (Instruction κ α)}

/-! ### Other instructions are the same step on both tapes

Both cursors have the same instruction with the same frames and the same scratch, so the
two handlers are called alike and what comes of it is the same.  Afterwards both have
left the instruction behind; what remains is the rest of the same list.
-/

/-- The guard never stops the mirror. -/
theorem Mirrors.runs (h : t.Mirrors u) (hi : u.cursor.program.get? u.cursor.ip = some i) :
    u.Runs i := by
  refine ⟨hi, Nat.le_trans ?_ (one_le_visits _)⟩
  have hfresh := h.ahead u.cursor.ip (Nat.le_refl _)
  have hip := Program.lt_size_of_get? hi
  rw [← h.mirror.visits] at hip
  rw [Array.getElem?_eq_getElem hip, Option.getD_some] at hfresh
  simp [seen, Array.getElem?_modify, Array.getElem?_eq_getElem hip, hfresh]

theorem ofCursor_ahead (c : Cursor κ α) (state : σ) (a : Nat) :
    (ofCursor c state).visits[a]?.getD 0 = 0 := by
  simp only [ofCursor, noVisits, Array.getElem?_replicate]
  split <;> rfl

theorem Mirrors.counted_ahead (h : t.Mirrors u) {a : Nat} (ha : u.cursor.ip + 1 ≤ a) :
    u.counted.visits[a]?.getD 0 = 0 := by
  have hne : u.cursor.ip ≠ a := by omega
  refine Eq.trans ?_ (h.ahead a (by omega))
  simp [counted, Array.getElem?_modify, hne]

/-- After a step on both tapes nothing is remembered on either. -/
theorem Mirrors.both (h : t.Mirrors u) (ht : t.step I = .ok (.next t'))
    (hu : u.step I = .ok (.next u'))
    (hremains : t.cursor.program.Remains t'.cursor.control
      (u.cursor.program.code.toList.drop u'.cursor.ip))
    (hstate : u'.state = t'.state)
    (hahead : ∀ a, u'.cursor.ip ≤ a → u'.visits[a]?.getD 0 = 0) : t'.Mirrors u' := by
  have out := outcome_of_step ht
  have out' := outcome_of_step hu
  obtain ⟨sound, idle⟩ := out.idle h.script
  obtain ⟨sound', idle'⟩ := out'.idle h.mirror
  refine ⟨⟨?_, ?_, ?_⟩, hstate, hahead, sound, sound'⟩
  · rw [out.leads.1, out'.leads.1]
    exact hremains
  · rw [idle.frame, idle'.frame]
  · rw [idle.scratch, idle'.scratch]

/-- What is still to come on both tapes when the present instruction has been left behind. -/
def Passes (t u : Pulse κ α σ) : Prop :=
  t.cursor.program.Remains { t.cursor.control with ip := t.cursor.ip + 1 }
    (u.cursor.program.code.toList.drop (u.cursor.ip + 1))

theorem Mirrors.matches_instant (h : t.Mirrors u) (passes : t.Passes u) (run : t.Runs i)
    (run' : u.Runs i) (hf : i.flow = .instant) : u.Matches I (t.step I) := by
  have ht := step_instant (I := I) run hf
  have hu := step_instant (I := I) run' hf
  rw [h.state] at hu
  cases hcall : I.instant i t.state with
  | error e =>
      rw [hcall] at ht hu
      rw [ht]
      exact .crash hu
  | ok answered =>
      obtain ⟨signal, state⟩ := answered
      rw [hcall] at ht hu
      cases signal with
      | proceed =>
          have both := h.both ht hu passes rfl fun a => h.counted_ahead
          rw [ht]
          exact .next hu both
      | halt =>
          rw [ht]
          exact .ended hu rfl rfl

theorem Mirrors.kept_eq (h : t.Mirrors u) : u.kept = t.kept :=
  h.cursor.kept

theorem Mirrors.holds_iff (h : t.Mirrors u) : u.Holds i ↔ t.Holds i := by
  unfold Holds
  rw [h.cursor.frame]

theorem Mirrors.matches_hold (h : t.Mirrors u) (passes : t.Passes u) (run : t.Runs i)
    (run' : u.Runs i) (hold : t.Holds i) : u.Matches I (t.step I) := by
  have ht := step_hold (I := I) run hold
  have hu := step_hold (I := I) run' (h.holds_iff.mpr hold)
  rw [h.cursor.frame, h.kept_eq, h.state] at hu
  cases hcall : I.timed i (.run t.cursor.frame i.duration (i.fraction t.cursor.frame)) t.kept
      t.state with
  | error e =>
      rw [hcall] at ht hu
      rw [ht]
      exact .crash hu
  | ok answered =>
      obtain ⟨answer, left, state⟩ := answered
      rw [hcall] at ht hu
      cases answer with
      | pending =>
          rw [ht]
          refine .waits hu h.script.unfinished h.mirror.unfinished ⟨h.cursor.remains, ?_, ?_⟩
          · show nextFrame u.cursor.frame = nextFrame t.cursor.frame
            rw [h.cursor.frame]
          · show (u.cursor.taken.held left).scratch[u.cursor.ip]?
              = (t.cursor.taken.held left).scratch[t.cursor.ip]?
            rw [Cursor.held_scratch h.mirror.resting, Cursor.held_scratch h.script.resting,
              if_pos rfl, if_pos rfl]
      | release =>
          have both := h.both ht hu passes rfl fun a _ => ofCursor_ahead _ _ a
          rw [ht]
          exact .next hu both

theorem Mirrors.matches_finish (h : t.Mirrors u) (passes : t.Passes u) (run : t.Runs i)
    (run' : u.Runs i) (hf : i.flow = .timed) (expired : i.duration ≤ t.cursor.frame) :
    u.Matches I (t.step I) := by
  have ht := step_finish (I := I) run hf expired
  have hu := step_finish (I := I) run' hf (by rw [h.cursor.frame]; exact expired)
  rw [h.kept_eq, h.state] at hu
  cases hcall : I.timed i .finish t.kept t.state with
  | error e =>
      rw [hcall] at ht hu
      rw [ht]
      exact .crash hu
  | ok answered =>
      obtain ⟨answer, left, state⟩ := answered
      rw [hcall] at ht hu
      have both := h.both ht hu passes rfl fun a _ => ofCursor_ahead _ _ a
      rw [ht]
      exact .next hu both

/-- An instruction that is not control does the same on both tapes. -/
theorem Mirrors.matches_plain (h : t.Mirrors u) (passes : t.Passes u) (run : t.Runs i)
    (run' : u.Runs i) (hf : i.flow.isControl = false) : u.Matches I (t.step I) := by
  cases hflow : i.flow with
  | instant => exact h.matches_instant passes run run' hflow
  | timed =>
      by_cases expired : i.duration ≤ t.cursor.frame
      · exact h.matches_finish passes run run' hflow expired
      · exact h.matches_hold passes run run' (Or.inr ⟨hflow, Int32.not_le.mp expired⟩)
  | yielding => exact h.matches_hold passes run run' (Or.inl hflow)
  | loopStart | loopEnd | call | ret | stop =>
      exact absurd hf (by simp [hflow, Flow.isControl])

/-! ### A jump is a step of the script alone

The mirror has no such instruction and waits.  That what remains does not change is the
place where the structure of the script is used; everything else in this module holds of
any two cursors with the same instructions to come.
-/

/-- A jump is no step of the mirror. -/
theorem Mirrors.matches_jump (h : t.Mirrors u) (run : t.Runs i) (hf : i.flow.Jumps) {s : Control}
    (hnext : t.cursor.program.next? t.cursor.control = some s)
    (hremains : t.cursor.program.Remains s (u.cursor.program.code.toList.drop u.cursor.ip)) :
    u.Matches I (t.step I) := by
  have ht := step_jump (I := I) run hf
  cases hobey : t.cursor.obey i with
  | error e =>
      rw [hobey] at ht
      rw [ht]
      exact .fault rfl (by simp [counted, Cursor.abort])
  | ok c =>
      rw [hobey] at ht
      have out := outcome_of_step ht
      obtain ⟨hsame, hleads, -⟩ := out.leads
      obtain ⟨sound, idle⟩ := out.idle h.script
      have before := h.script.idle_of_flow run.here hf.not_held
      rw [hnext, Option.some.injEq] at hleads
      rw [ht]
      refine .jump ⟨⟨?_, ?_, ?_⟩, h.state, h.ahead, sound, h.mirror⟩
      · rw [hsame, ← hleads]
        exact hremains
      · rw [h.cursor.frame, before.frame, idle.frame]
      · rw [h.cursor.kept, before.scratch, idle.scratch]

/-- Every step of the script is one of its mirror, or a jump, or a fault. -/
theorem Mirrors.matches_step (h : t.Mirrors u) : u.Matches I (t.step I) := by
  have runs : ∀ {i : Instruction κ α}, t.cursor.program.get? t.cursor.ip = some i →
      (t.Runs i → u.Matches I (t.step I)) → u.Matches I (t.step I) := by
    intro i hi hrun
    by_cases hseen : t.seen ≤ Limits.visits t.cursor.program.size
    · exact hrun ⟨hi, hseen⟩
    · rw [step_runaway hi (Nat.not_le.mp hseen)]
      exact .fault rfl (by simp [Cursor.abort])
  have remains := h.cursor.remains
  generalize hrest : u.cursor.program.code.toList.drop u.cursor.ip = rest at remains
  cases remains with
  | stop hi hf =>
      refine runs hi fun run => ?_
      have hu := step_offTape (I := I) (Program.get?_of_drop_nil hrest)
      rw [h.state] at hu
      rw [step_stop run hf]
      exact .ended hu rfl rfl
  | plain hi hf passes =>
      obtain ⟨hi', hbehind⟩ := Program.get?_of_drop hrest
      rw [← hbehind] at passes
      exact runs hi fun run => h.matches_plain passes run (h.runs hi') hf
  | jump hi hf hnext hremains =>
      rw [← hrest] at hremains
      exact runs hi fun run => h.matches_jump run hf hnext hremains

end Pulse

/-! ### Updates agree unless the script has recorded a fault

The two loops take different numbers of steps for the same tick, so the induction is
over the steps of the script and takes the mirror along by one or none.  Once there is a
fault nothing more is claimed, and this is kept by all later updates because a script
with a fault is over.
-/

/-- The script has recorded a fault, or its update and that of its mirror come to the same. -/
inductive Cursor.Agrees : Except Crash (Bool × Cursor κ α × σ) →
    Except Crash (Bool × Cursor κ α × σ) → Prop
  | crash (e : Crash) : Agrees (.error e) (.error e)
  | fault {c : Cursor κ α} {state : σ} {o : Except Crash (Bool × Cursor κ α × σ)}
      (finished : c.finished = true) (fault : c.fault ≠ none) : Agrees (.ok (false, c, state)) o
  | ended {c d : Cursor κ α} (state : σ) (finished : c.finished = true)
      (finished' : d.finished = true) : Agrees (.ok (false, c, state)) (.ok (false, d, state))
  | waits {c d : Cursor κ α} (state : σ) (unfinished : c.finished = false)
      (unfinished' : d.finished = false) (h : c.Mirrors d) :
      Agrees (.ok (true, c, state)) (.ok (true, d, state))

/-- A tick of the script comes to the same as one of its mirror. -/
theorem Pulse.Takes.agrees {I : Interpreter κ α σ} {n : Nat} {t : Pulse κ α σ}
    {o : Except Crash (Bool × Cursor κ α × σ)} (h : Takes I n t o) :
    ∀ {m : Nat} {u : Pulse κ α σ} {o' : Except Crash (Bool × Cursor κ α × σ)},
      t.Mirrors u → Takes I m u o' → Cursor.Agrees o o' := by
  induction h with
  | crash hstep =>
      intro m u o' mirrors takes
      have matched := mirrors.matches_step (I := I)
      rw [hstep] at matched
      cases matched with
      | crash hstep' =>
          obtain ⟨-, rfl⟩ := takes.unique (.crash hstep')
          exact .crash _
  | done hstep =>
      intro m u o' mirrors takes
      have matched := mirrors.matches_step (I := I)
      rw [hstep] at matched
      cases matched with
      | fault finished fault => exact .fault finished fault
      | ended hstep' finished finished' =>
          obtain ⟨-, rfl⟩ := takes.unique (.done hstep')
          exact .ended _ finished finished'
      | waits hstep' unfinished unfinished' mirrors' =>
          obtain ⟨-, rfl⟩ := takes.unique (.done hstep')
          exact .waits _ unfinished unfinished' mirrors'
  | next hstep _ ih =>
      intro m u o' mirrors takes
      have matched := mirrors.matches_step (I := I)
      rw [hstep] at matched
      cases matched with
      | jump mirrors' => exact ih mirrors' takes
      | next hstep' mirrors' =>
          obtain ⟨_, -, takes'⟩ := takes.rest hstep'
          exact ih mirrors' takes'

namespace Cursor

variable {I : Interpreter κ α σ} {p q : Program κ α} {c d : Cursor κ α}

/-- An update of the script comes to the same as one of its mirror. -/
theorem Mirrors.update_agrees (h : c.Mirrors d) (hc : c.Reachable p) (hd : d.Reachable q)
    (unfinished : c.finished = false) (unfinished' : d.finished = false) (state : σ) :
    Agrees (c.update I state) (d.update I state) := by
  obtain ⟨n, takes⟩ := hc.takes unfinished I state
  obtain ⟨m, takes'⟩ := hd.takes unfinished' I state
  have mirrors : (Pulse.ofCursor c state).Mirrors (Pulse.ofCursor d state) :=
    ⟨h, rfl, fun a _ => Pulse.ofCursor_ahead d state a, hc.ready.sound unfinished state,
      hd.ready.sound unfinished' state⟩
  exact takes.agrees mirrors takes'

/-- What the first updates come to is the same, or the first of the two has recorded a fault. -/
structure SameUnlessFault (o o' : Except Crash (List Bool × Cursor κ α × σ)) : Prop where
  ok : ∀ answers c state, o = .ok (answers, c, state) → c.fault = none →
    ∃ d, o' = .ok (answers, d, state)
  error : ∀ e, o = .error e → o' = .error e

namespace SameUnlessFault

variable {o o' : Except Crash (List Bool × Cursor κ α × σ)}

theorem crash (e : Crash) :
    SameUnlessFault (.error e : Except Crash (List Bool × Cursor κ α × σ)) (.error e) := by
  refine ⟨fun _ _ _ h => ?_, fun _ h => h⟩
  exact absurd h (by simp)

theorem same (answers : List Bool) (c d : Cursor κ α) (state : σ) :
    SameUnlessFault (.ok (answers, c, state)) (.ok (answers, d, state)) := by
  refine ⟨fun answers' c' state' h _ => ?_, fun _ h => absurd h (by simp)⟩
  rw [Except.ok.injEq, Prod.mk.injEq, Prod.mk.injEq] at h
  obtain ⟨rfl, -, rfl⟩ := h
  exact ⟨d, rfl⟩

theorem of_fault {c : Cursor κ α} (hfault : c.fault ≠ none) (answers : List Bool) (state : σ) :
    SameUnlessFault (.ok (answers, c, state)) o' := by
  refine ⟨fun answers' c' state' h hnone => ?_, fun _ h => absurd h (by simp)⟩
  rw [Except.ok.injEq, Prod.mk.injEq, Prod.mk.injEq] at h
  obtain ⟨-, rfl, -⟩ := h
  exact absurd hnone hfault

/-- One more answer before both of them. -/
theorem cons (h : SameUnlessFault o o') (running : Bool) :
    SameUnlessFault (do let (answers, c, state) ← o; return (running :: answers, c, state))
      (do let (answers, c, state) ← o'; return (running :: answers, c, state)) := by
  cases o with
  | error e =>
      rw [h.error e rfl]
      exact .crash e
  | ok r =>
      obtain ⟨answers, c, state⟩ := r
      by_cases hfault : c.fault = none
      · obtain ⟨d, hd⟩ := h.ok answers c state rfl hfault
        rw [hd]
        exact .same (running :: answers) c d state
      · exact .of_fault hfault (running :: answers) state

end SameUnlessFault

/-- A script and its mirror, waiting for the next update, or both over. -/
inductive Paired (c d : Cursor κ α) : Prop
  | ended (finished : c.finished = true) (finished' : d.finished = true)
  | waits (unfinished : c.finished = false) (unfinished' : d.finished = false) (h : c.Mirrors d)

/-- However many updates of the script come to the same as those of its mirror. -/
theorem Paired.updates (I : Interpreter κ α σ) (k : Nat) :
    ∀ {c d : Cursor κ α}, c.Paired d → c.Reachable p → d.Reachable q → ∀ state : σ,
      SameUnlessFault (Cursor.updates I k c state) (Cursor.updates I k d state) := by
  induction k with
  | zero =>
      intro c d _ _ _ state
      exact .same [] c d state
  | succ k ih =>
      intro c d paired hc hd state
      rcases paired with ⟨finished, finished'⟩ | ⟨unfinished, unfinished', mirrors⟩
      · rw [updates_finished finished, updates_finished finished']
        exact .same _ c d state
      · have agrees := mirrors.update_agrees (I := I) hc hd unfinished unfinished' state
        rw [Cursor.updates, Cursor.updates]
        generalize hu : c.update I state = o at agrees
        generalize hu' : d.update I state = o' at agrees
        cases agrees with
        | crash e => exact .crash e
        | @fault c' state' _ finished fault =>
            -- the fault stays recorded, however many updates follow
            have hrest := updates_finished finished I k state'
            show SameUnlessFault (Cursor.updates I k c' state' >>= _) _
            rw [hrest]
            exact .of_fault fault _ state'
        | ended state' finished finished' =>
            exact (ih (.ended finished finished') (.update hc hu) (.update hd hu') state').cons false
        | waits state' unfinished₁ unfinished₂ mirrors' =>
            exact (ih (.waits unfinished₁ unfinished₂ mirrors') (.update hc hu) (.update hd hu')
              state').cons true

end Cursor

namespace BlockScript

/--
**Structure is unrolling.**  A well-formed script is compiled to a tape, and it can be
written without loops and calls.  However many updates are run on both, from their
starts and with the same interpreter, the handlers are called in the same way, the
interpreter ends in the same state and the updates answer the same, unless the compiled
script has recorded a fault.
-/
theorem compile_agrees {s : BlockScript κ α} (h : s.WellFormed) :
    ∃ p straight, s.compile = .ok p ∧ (∀ code, s.Unrolls s.main code ↔ code = straight) ∧
      ∀ (σ : Type) (I : Interpreter κ α σ) (state : σ) (k : Nat),
        Cursor.SameUnlessFault (Cursor.updates I.recorded k (.ofProgram p) (state, []))
          (Cursor.updates I.recorded k (.ofProgram (.ofInstructions straight)) (state, [])) := by
  obtain ⟨p, hcompile, compiled⟩ := h.exists_compile
  obtain ⟨straight, hstraight⟩ := h.exists_unrolls
  have honly : ∀ code, s.Unrolls s.main code ↔ code = straight :=
    fun code => ⟨fun hcode => hcode.unique hstraight, fun heq => heq ▸ hstraight⟩
  refine ⟨p, straight, hcompile, honly, fun σ I state k => ?_⟩
  have mirrors : (Cursor.ofProgram p).Mirrors (.ofProgram (.ofInstructions straight)) :=
    ⟨hstraight.remains_start compiled, rfl, rfl⟩
  exact Cursor.Paired.updates I.recorded k (.waits rfl rfl mirrors) .start .start (state, [])

/-- Two passes of a subroutine that skips a loop and calls another. -/
def volleys : BlockScript Bullet.Kind Float32 where
  main := .loop 2 (.call "volley" .done) .done
  subroutines := [
    ("volley", .loop 0 (.plain (.wait 9) rfl .done) (.call "pause" .done)),
    ("pause", .plain (.wait 1) rfl .done)]

theorem volleys_wellFormed : volleys.WellFormed := by
  have calls : ∀ callee caller, volleys.Calls callee caller →
      callee = "pause" ∧ caller = "volley" := by
    intro callee caller hcalls
    obtain ⟨block, hblock, hcallee⟩ := hcalls
    simp only [block?, volleys, List.lookup_cons, List.lookup_nil] at hblock
    split at hblock
    · rename_i hcaller
      cases hblock
      exact ⟨by simpa [Block.callees] using hcallee, by simpa using hcaller⟩
    · split at hblock <;> cases hblock
      simp [Block.callees] at hcallee
  refine ⟨by decide, by decide, ?_, ?_, ?_⟩
  · intro name hname
    obtain rfl : name = "volley" := by simpa [volleys, Block.callees] using hname
    exact ⟨_, rfl⟩
  · intro callee caller hcalls
    obtain ⟨rfl, -⟩ := calls callee caller hcalls
    exact ⟨_, rfl⟩
  · refine acyclic_of_rank (fun name => if name = "volley" then 1 else 0) fun callee caller h => ?_
    obtain ⟨rfl, rfl⟩ := calls callee caller h
    decide

theorem compile_agrees_volleys :
    let I : Interpreter Bullet.Kind Float32 _ :=
      (⟨[], #[], .capture⟩ : Probe Bullet.Kind).interpreter
    volleys.WellFormed ∧ ∃ p straight, volleys.compile = .ok p ∧
      (∀ code, volleys.Unrolls volleys.main code ↔ code = straight) ∧
      ∃ c d state calls,
        Cursor.updates I.recorded 3 (.ofProgram p) (⟨#[], 0⟩, [])
          = .ok ([true, true, false], c, state, calls) ∧
        c.fault = none ∧
        Cursor.updates I.recorded 3 (.ofProgram (.ofInstructions straight)) (⟨#[], 0⟩, [])
          = .ok ([true, true, false], d, state, calls) := by
  intro I
  obtain ⟨p, straight, hcompile, hstraight, agrees⟩ := compile_agrees volleys_wellFormed
  refine ⟨volleys_wellFormed, p, straight, hcompile, hstraight, ?_⟩
  obtain ⟨c, state, calls, hupdates, hfault⟩ : ∃ c state calls,
      Cursor.updates I.recorded 3 (.ofProgram p) (⟨#[], 0⟩, [])
        = .ok ([true, true, false], c, state, calls) ∧ c.fault = none := by
    have htape : volleys.compile = .ok (.assemble
        #[.loopStart 2, .call "volley", .loopEnd, .stop, .loopStart 0, .wait 9, .loopEnd,
          .call "pause", .ret, .wait 1, .ret] [("volley", 4), ("pause", 9)] (by decide)) := rfl
    rw [hcompile, Except.ok.injEq] at htape
    subst htape
    exact ⟨_, _, _, rfl, rfl⟩
  obtain ⟨d, hd⟩ := (agrees _ I ⟨#[], 0⟩ 3).ok _ _ _ hupdates hfault
  exact ⟨c, d, state, calls, hupdates, hfault, hd⟩

end BlockScript

end Barrage
