/-
Paced scripts last exactly as long as they are written to.

A script is paced when every pass of its loops comes to a timed instruction.  Against
an interpreter that never lets go early, such a script is never stopped by the guard,
and the number of its ticks is that of its timed instructions, each counted as often as
the loops around it run.

`Pulse.Plays` is a run over several ticks.  That a stretch of the tape plays to its end
is shown by induction on how its loops are nested, for any loops open around it.  What
the guard has counted is part of that statement.  Behind a stretch with progress it has
counted at most one visit inside of the stretch and none elsewhere; behind one without,
at most one visit more than before, and inside of it only.  So there are never more
than two, however loops follow on and repeat one another.
-/
import Barrage.Proofs.Script.Balance
import Barrage.Proofs.Script.Fault
import Barrage.Proofs.Script.Span

namespace Barrage

variable {κ α σ : Type} [Vocabulary κ] [Scalar α]

/-- An interpreter that always goes on after an instant instruction. -/
def Interpreter.Proceeds (I : Interpreter κ α σ) : Prop :=
  ∀ i state, ∃ state', I.instant i state = .ok (.proceed, state')

/-- An interpreter that always goes on after an instant instruction and never lets go of a timed
one before its span is over. -/
structure Interpreter.Steady (I : Interpreter κ α σ) : Prop where
  instant : ∀ i state, ∃ state', I.instant i state = .ok (.proceed, state')
  run : ∀ i frame duration t given state, ∃ left state',
    I.timed i (.run frame duration t) given state = .ok (.pending, left, state')
  finish : ∀ i given state, ∃ answer left state',
    I.timed i .finish given state = .ok (answer, left, state')

namespace Pulse

variable {I : Interpreter κ α σ} {p : Program κ α} {t t' u : Pulse κ α σ} {i : Instruction κ α}
  {k m n : Nat} {loops : List LoopFrame}

/-! ### Runs count the ticks that end on the way

A stretch of the tape may take no tick or many, and may begin in the middle of one.  So
a run is a sequence of steps across the ends of ticks, and only at the very end is it
cut into updates again.
-/

/-- From `t` the script comes to `t'`, and `n` ticks end on the way. -/
inductive Plays (I : Interpreter κ α σ) : Nat → Pulse κ α σ → Pulse κ α σ → Prop
  | refl (t : Pulse κ α σ) : Plays I 0 t t
  | step {n : Nat} {t t' u : Pulse κ α σ} (h : t.step I = .ok (.next t')) (rest : Plays I n t' u) :
      Plays I n t u
  | tick {n : Nat} {t u : Pulse κ α σ} {c : Cursor κ α} {state : σ}
      (h : t.step I = .ok (.done true c state)) (rest : Plays I n (.ofCursor c state) u) :
      Plays I (n + 1) t u

theorem Plays.trans (h : Plays I m t t') (h' : Plays I n t' u) : Plays I (m + n) t u := by
  induction h with
  | refl _ => rwa [Nat.zero_add]
  | step h _ ih => exact .step h (ih h')
  | @tick m _ _ _ _ h _ ih =>
      rw [Nat.add_right_comm]
      exact .tick h (ih h')

/-- How often a position was visited since the last progress. -/
def visited (t : Pulse κ α σ) (k : Nat) : Nat :=
  t.visits[k]?.getD 0

/-- The script is at position `k` with the given loops open, after `m` ticks of the instruction. -/
structure Stands (t : Pulse κ α σ) (p : Program κ α) (k : Nat) (loops : List LoopFrame) (m : Nat) :
    Prop where
  program : t.cursor.program = p
  ip : t.cursor.ip = k
  loops : t.cursor.loops = loops
  calls : t.cursor.calls = []
  frame : t.cursor.frame = frameAt m
  sound : t.Sound

theorem Stands.control (h : t.Stands p k loops m) : t.cursor.control = ⟨k, loops, []⟩ := by
  rw [← h.ip, ← h.loops, ← h.calls]
  rfl

theorem Stands.fits (h : t.Stands p k loops m) (depth : loops.length ≤ 64) :
    t.cursor.control.Fits := by
  rw [h.control]
  exact ⟨depth, Nat.zero_le _⟩

theorem Stands.here (h : t.Stands p k loops m) (hi : p.get? k = some i) :
    t.cursor.program.get? t.cursor.ip = some i := by
  rw [h.program, h.ip, hi]

theorem visited_ofCursor (c : Cursor κ α) (state : σ) (k : Nat) :
    (ofCursor c state).visited k = 0 := by
  simp only [visited, ofCursor, noVisits, Array.getElem?_replicate]
  split <;> rfl

/-- The guard lets every instruction run that has been visited once at most. -/
theorem Stands.runs (h : t.Stands p k loops m) (hi : p.get? k = some i) (fresh : t.visited k ≤ 1) :
    t.Runs i := by
  have hlt := Program.lt_size_of_get? hi
  refine ⟨h.here hi, ?_⟩
  have hseen : t.seen = t.visited k + 1 := by
    have hsize : k < t.visits.size := by rw [h.sound.visits, h.program]; exact hlt
    simp [seen, visited, h.ip, Array.getElem_modify, hsize]
  rw [hseen, h.program]
  unfold Limits.visits
  omega

/-- One visit more for the present position and for no other. -/
theorem visited_counted (t : Pulse κ α σ) (k : Nat) :
    t.counted.visited k ≤ t.visited k + if k = t.cursor.ip then 1 else 0 := by
  simp only [visited, counted, Array.getElem?_modify]
  by_cases heq : t.cursor.ip = k
  · subst heq
    cases t.visits[t.cursor.ip]? <;> simp
  · simp [heq]

/-! ### Single instructions

Each kind of instruction on its own: what it needs to run is that the guard has seen it
once at most, and what it leaves behind is where the script stands next and what was
counted.  A timed instruction is the only one here that lets ticks end.
-/

/-- A step that leaves the instruction leaves no frames. -/
theorem Stands.of_next (h : t.Stands p k loops m) (hstep : t.step I = .ok (.next t'))
    {k' : Nat} {loops' : List LoopFrame} (hnext : p.next? ⟨k, loops, []⟩ = some ⟨k', loops', []⟩) :
    t'.Stands p k' loops' 0 := by
  have out := outcome_of_step hstep
  obtain ⟨hsame, hleads, -⟩ := out.leads
  obtain ⟨sound, idle⟩ := out.idle h.sound
  rw [h.program, h.control, hnext, Option.some.injEq] at hleads
  exact ⟨hsame.trans h.program, congrArg Control.ip hleads.symm, congrArg Control.loops hleads.symm,
    congrArg Control.calls hleads.symm, idle.frame, sound⟩

theorem Stands.instant (h : t.Stands p k loops m) (proceeds : I.Proceeds) (hi : p.get? k = some i)
    (run : t.Runs i) (hf : i.flow = .instant) :
    ∃ t', t.step I = .ok (.next t') ∧ t'.Stands p (k + 1) loops 0 ∧
      ∀ a, t'.visited a ≤ t.visited a + if a = k then 1 else 0 := by
  obtain ⟨state, hcall⟩ := proceeds i t.state
  have hstep := step_instant (I := I) run hf
  rw [hcall] at hstep
  refine ⟨_, hstep, h.of_next hstep ?_, fun a => h.ip ▸ t.visited_counted a⟩
  exact (Program.Moves.pass (s := ⟨k, loops, []⟩) hi (Or.inl hf)).next?

/-- A bracket is obeyed unless too many loops are open. -/
theorem Stands.bracket (h : t.Stands p k loops m) (run : t.Runs i)
    (hf : i.flow = .loopStart ∨ i.flow = .loopEnd) (depth : loops.length ≤ 64)
    (room : i.flow = .loopStart → 0 < i.count → loops.length < 64)
    {k' : Nat} {loops' : List LoopFrame}
    (hnext : p.next? ⟨k, loops, []⟩ = some ⟨k', loops', []⟩) :
    ∃ t', t.step I = .ok (.next t') ∧ t'.Stands p k' loops' 0 ∧
      ∀ a, t'.visited a ≤ t.visited a + if a = k then 1 else 0 := by
  have jumps : i.flow.Jumps := by
    rcases hf with hf | hf
    · exact Or.inl hf
    · exact Or.inr (Or.inl hf)
  cases hobey : t.cursor.obey i with
  | ok c =>
      have hstep := step_jump (I := I) run jumps
      rw [hobey] at hstep
      exact ⟨_, hstep, h.of_next hstep hnext, fun a => h.ip ▸ t.visited_counted a⟩
  | error e =>
      have refuses := (Cursor.obey_error_iff (h.fits depth)).mp hobey
      cases refuses with
      | loopStackOverflow hstart hpositive hfull =>
          have := room hstart hpositive
          rw [h.loops] at hfull
          omega
      | unknownSubroutine hcall _ => rcases hf with hf | hf <;> rw [hf] at hcall <;> cases hcall
      | callStackOverflow hcall _ _ => rcases hf with hf | hf <;> rw [hf] at hcall <;> cases hcall
      | returnWithoutCall hret _ => rcases hf with hf | hf <;> rw [hf] at hret <;> cases hret

/-- A tick within the span. -/
theorem Stands.tick (h : t.Stands p k loops m) (steady : I.Steady) (hi : p.get? k = some i)
    (hf : i.flow = .timed) (within : m < i.duration.toNatClampNeg) (fresh : t.visited k ≤ 1) :
    ∃ c state, t.step I = .ok (.done true c state) ∧
      (ofCursor c state).Stands p k loops (m + 1) := by
  have hold : t.Holds i := Or.inr ⟨hf, by rwa [h.frame, frameAt_lt]⟩
  obtain ⟨left, state, hcall⟩ :=
    steady.run i t.cursor.frame i.duration (i.fraction t.cursor.frame) t.kept t.state
  have hstep := step_hold (I := I) (h.runs hi fresh) hold
  rw [hcall] at hstep
  refine ⟨_, _, hstep, h.program, h.ip, h.loops, h.calls, ?_, ?_⟩
  · show nextFrame t.cursor.frame = _
    rw [h.frame, nextFrame_frameAt]
  · cases (outcome_of_step hstep).settles h.sound with
    | waits unfinished faultless waits => exact ofCursor_sound (Or.inr waits) unfinished faultless

/-- The end of the span. -/
theorem Stands.finish (h : t.Stands p k loops i.duration.toNatClampNeg) (steady : I.Steady)
    (hi : p.get? k = some i) (hf : i.flow = .timed) (fresh : t.visited k ≤ 1) :
    ∃ t', t.step I = .ok (.next t') ∧ t'.Stands p (k + 1) loops 0 ∧ ∀ a, t'.visited a = 0 := by
  have hover : i.duration ≤ t.cursor.frame := by
    rw [h.frame, ← Int32.not_lt, frameAt_lt]
    exact Nat.lt_irrefl _
  obtain ⟨answer, left, state, hcall⟩ := steady.finish i t.kept t.state
  have hstep := step_finish (I := I) (h.runs hi fresh) hf hover
  rw [hcall] at hstep
  refine ⟨_, hstep, h.of_next hstep ?_, visited_ofCursor _ _⟩
  exact (Program.Moves.pass (s := ⟨k, loops, []⟩) hi (Or.inr (Or.inl hf))).next?

/-- A timed instruction lasts as many ticks as its duration has left. -/
theorem Stands.timed (steady : I.Steady) (hi : p.get? k = some i) (hf : i.flow = .timed)
    (h : t.Stands p k loops m) (within : m ≤ i.duration.toNatClampNeg)
    (fresh : t.visited k ≤ 1) :
    ∃ t', Plays I (i.duration.toNatClampNeg - m) t t' ∧ t'.Stands p (k + 1) loops 0 ∧
      ∀ a, t'.visited a = 0 := by
  induction hn : i.duration.toNatClampNeg - m generalizing m t with
  | zero =>
      obtain rfl : m = i.duration.toNatClampNeg := by omega
      obtain ⟨t', hstep, stands, hvisited⟩ := h.finish steady hi hf fresh
      exact ⟨t', .step hstep (.refl t'), stands, hvisited⟩
  | succ n ih =>
      obtain ⟨c, state, hstep, stands⟩ := h.tick steady hi hf (by omega) fresh
      have fresh' : (ofCursor c state).visited k ≤ 1 := by
        rw [visited_ofCursor]
        exact Nat.zero_le 1
      obtain ⟨t', plays, stands', hvisited⟩ := ih stands (by omega) fresh' (by omega)
      exact ⟨t', .tick hstep plays, stands', hvisited⟩

/-! ### How stretches are put together

The count of the guard is a function of the position, before and after.  `Marks` has a
clause for stretches with progress and one for those without, since only the first clear
the count; with both of them it composes, and this is what makes two visits a bound that
holds everywhere.
-/

/-- One for the positions from `a` up to `b`. -/
def inside (a b k : Nat) : Nat :=
  if a ≤ k ∧ k < b then 1 else 0

theorem inside_eq_zero {a b k : Nat} (h : k < a ∨ b ≤ k) : inside a b k = 0 := by
  unfold inside
  exact if_neg (by omega)

theorem inside_le_one (a b k : Nat) : inside a b k ≤ 1 := by
  unfold inside
  split <;> omega

theorem inside_add {a b c : Nat} (hab : a ≤ b) (hbc : b ≤ c) (k : Nat) :
    inside a b k + inside b c k = inside a c k := by
  unfold inside
  split <;> split <;> split <;> omega

theorem inside_single (a k : Nat) : inside a (a + 1) k = if k = a then 1 else 0 := by
  unfold inside
  split <;> split <;> omega

theorem inside_cons {a b : Nat} (h : a + 1 ≤ b) (k : Nat) :
    (if k = a then 1 else 0) + inside (a + 1) b k = inside a b k := by
  rw [← inside_single, inside_add (Nat.le_add_right a 1) h]

theorem inside_snoc {a b : Nat} (h : a ≤ b) (k : Nat) :
    (inside a b k + if k = b then 1 else 0) = inside a (b + 1) k := by
  rw [← inside_single, inside_add h (Nat.le_add_right b 1)]

/-- What the guard has counted before and after the stretch from `a` up to `b`. -/
structure Marks (p : Program κ α) (a b : Nat) (before after : Nat → Nat) : Prop where
  always : ∀ k, after k ≤ before k + inside a b k
  paced : p.PacedBetween a b → ∀ k, after k ≤ inside a b k

variable {a b c e : Nat} {before between after : Nat → Nat}

theorem Marks.refl (p : Program κ α) (a : Nat) (before : Nat → Nat) : Marks p a a before before :=
  ⟨fun _ => Nat.le_add_right _ _, fun h => absurd h (p.not_pacedBetween_self a)⟩

theorem Marks.trans (h : Marks p a b before between) (h' : Marks p b c between after)
    (hab : a ≤ b) (hbc : b ≤ c) : Marks p a c before after := by
  refine ⟨fun k => ?_, fun hpaced k => ?_⟩
  · have h₁ := h.always k
    have h₂ := h'.always k
    have := inside_add hab hbc k
    omega
  · have := inside_add hab hbc k
    rcases hpaced.split hab with hleft | hright
    · have h₁ := h.paced hleft k
      have h₂ := h'.always k
      omega
    · have h₂ := h'.paced hright k
      omega

/-- An instruction that makes no progress is marked itself. -/
theorem Marks.single (hi : p.get? a = some i) (hf : i.flow ≠ .timed)
    (h : ∀ k, after k ≤ before k + if k = a then 1 else 0) : Marks p a (a + 1) before after :=
  ⟨fun k => by rw [inside_single]; exact h k,
    fun hpaced => absurd hpaced (Program.not_pacedBetween_of_ne hi hf)⟩

/-- The stretch from `a` up to `b` plays to its end from wherever it has been visited at most once,
with any loops open around it. -/
def PlaysThrough (I : Interpreter κ α σ) (p : Program κ α) (a b : Nat) : Prop :=
  ∀ (t : Pulse κ α σ) (loops : List LoopFrame), t.Stands p a loops 0 →
    loops.length = (p.openBefore a).length → (∀ k, a ≤ k → k < b → t.visited k ≤ 1) →
    ∃ n t', Plays I n t t' ∧ t'.Stands p b loops 0 ∧
      n * p.timesAt a = p.ticksBetween a b ∧ Marks p a b t.visited t'.visited

/-- One stretch after the other. -/
theorem PlaysThrough.trans (h : PlaysThrough I p a b) (h' : PlaysThrough I p b c)
    (hab : a ≤ b) (hbc : b ≤ c) (hopen : p.openBefore b = p.openBefore a) :
    PlaysThrough I p a c := by
  intro t loops stands hloops fresh
  obtain ⟨n, u, plays, stands', hn, marks⟩ :=
    h t loops stands hloops fun k hak hkb => fresh k hak (Nat.lt_of_lt_of_le hkb hbc)
  have fresh' : ∀ k, b ≤ k → k < c → u.visited k ≤ 1 := by
    intro k hbk hkc
    have := marks.always k
    rw [inside_eq_zero (Or.inr hbk)] at this
    exact Nat.le_trans this (fresh k (Nat.le_trans hab hbk) hkc)
  obtain ⟨m, t', plays', stands'', hm, marks'⟩ := h' u loops stands' (by rw [hopen, hloops]) fresh'
  refine ⟨n + m, t', plays.trans plays', stands'', ?_, marks.trans marks' hab hbc⟩
  rw [Nat.add_mul, hn, Program.ticksBetween_trans hab hbc, ← hm, Program.timesAt_congr hopen]

theorem playsThrough_instant (steady : I.Steady) (hi : p.get? a = some i) (hf : i.flow = .instant) :
    PlaysThrough I p a (a + 1) := by
  intro t loops stands _ fresh
  have run := stands.runs hi (fresh a (Nat.le_refl a) (Nat.lt_succ_self a))
  obtain ⟨t', hstep, stands', hvisited⟩ := stands.instant steady.instant hi run hf
  refine ⟨0, t', .step hstep (.refl t'), stands', ?_, .single hi (by simp [hf]) hvisited⟩
  rw [Program.ticksBetween_succ, Program.spanAt_of_ne hi (by simp [hf])]

theorem playsThrough_timed (steady : I.Steady) (hi : p.get? a = some i) (hf : i.flow = .timed) :
    PlaysThrough I p a (a + 1) := by
  intro t loops stands _ fresh
  obtain ⟨t', plays, stands', hvisited⟩ :=
    Stands.timed steady hi hf stands (Nat.zero_le _) (fresh a (Nat.le_refl a) (Nat.lt_succ_self a))
  refine ⟨_, t', plays, stands', ?_, ⟨fun k => ?_, fun _ k => ?_⟩⟩
  · rw [Program.ticksBetween_succ, Program.spanAt_timed hi hf, Nat.sub_zero]
  · rw [hvisited]
    exact Nat.zero_le _
  · rw [hvisited]
    exact Nat.zero_le _

/-! ### A loop plays as often as it has passes

Every pass of a loop that is entered makes progress, so what a pass leaves counted is
the same after the first one and after all the others, and the induction on the passes
does not have to look at how many there were.
-/

/-- A loop that is not entered is one step. -/
theorem playsThrough_skip (paced : p.Paced) (hi : p.get? a = some i) (hs : i.flow = .loopStart)
    (none : i.count ≤ 0) (balanced : p.Balanced (a + 1) e) {j : Instruction κ α}
    (hj : p.get? e = some j) (he : j.flow = .loopEnd) : PlaysThrough I p a (e + 1) := by
  intro t loops stands hloops fresh
  have hle := balanced.le
  have depth : loops.length ≤ 64 := by
    rw [hloops]
    exact paced.depth a (Nat.le_of_lt (Program.lt_size_of_get? hi))
  have run := stands.runs hi (fresh a (Nat.le_refl a) (by omega))
  obtain ⟨t', hstep, stands', hvisited⟩ := stands.bracket run (Or.inl hs) depth
    (fun _ positive => absurd none (Int32.not_le.mpr positive))
    (balanced.next?_skip hi hs none hj he loops)
  refine ⟨0, t', .step hstep (.refl t'), stands', ?_, fun k => ?_, fun hpaced => ?_⟩
  · rw [Program.ticksBetween_loop hi hs hle hj he, balanced.ticks_of_none hi hs none, Nat.zero_mul]
  · refine Nat.le_trans (hvisited k) ?_
    have := inside_cons (by omega : a + 1 ≤ e + 1) k
    omega
  · exact absurd hpaced (balanced.not_paced_of_none hi hs none)

/-- One pass, up to the end of the loop. -/
theorem pass_plays (body : PlaysThrough I p (a + 1) e) (hi : p.get? a = some i)
    (hs : i.flow = .loopStart) (hpaced : p.PacedBetween (a + 1) e) {frame : LoopFrame}
    (stands : t.Stands p (a + 1) (frame :: loops) 0)
    (hloops : loops.length = (p.openBefore a).length)
    (fresh : ∀ k, a + 1 ≤ k → k < e → t.visited k ≤ 1) :
    ∃ n u, Plays I n t u ∧ u.Stands p e (frame :: loops) 0 ∧
      n * p.timesAt (a + 1) = p.ticksBetween (a + 1) e ∧ ∀ k, u.visited k ≤ inside (a + 1) e k := by
  have hlength : (frame :: loops).length = (p.openBefore (a + 1)).length := by
    rw [Program.openBefore_start hi hs, List.length_cons, List.length_cons, hloops]
  obtain ⟨n, u, plays, stands', hn, marks⟩ := body t _ stands hlength fresh
  exact ⟨n, u, plays, stands', hn, marks.paced hpaced⟩

/-- The step at the end of a loop, back into it or out of it. -/
theorem end_steps {j : Instruction κ α} (hj : p.get? e = some j) (he : j.flow = .loopEnd)
    (hae : a ≤ e) {frame : LoopFrame} (stands : t.Stands p e (frame :: loops) 0)
    (depth : loops.length < 64) (hvisited : ∀ k, t.visited k ≤ inside a e k) {k' : Nat}
    {loops' : List LoopFrame}
    (hnext : p.next? ⟨e, frame :: loops, []⟩ = some ⟨k', loops', []⟩) :
    ∃ t', t.step I = .ok (.next t') ∧ t'.Stands p k' loops' 0 ∧
      ∀ k, t'.visited k ≤ inside a (e + 1) k := by
  have fresh : t.visited e ≤ 1 := Nat.le_trans (hvisited e) (inside_le_one a e e)
  have run := stands.runs hj fresh
  obtain ⟨t', hstep, stands', hvisited'⟩ := stands.bracket run (Or.inr he) depth
    (fun hs => absurd (he.symm.trans hs) (by simp)) hnext
  refine ⟨t', hstep, stands', fun k => ?_⟩
  have h₁ := hvisited k
  have h₂ := hvisited' k
  have := inside_snoc hae k
  omega

/-- All the passes that a loop has left, of which every one makes progress. -/
theorem passes_play (body : PlaysThrough I p (a + 1) e) (hi : p.get? a = some i)
    (hs : i.flow = .loopStart) {j : Instruction κ α} (hj : p.get? e = some j)
    (he : j.flow = .loopEnd) (hae : a + 1 ≤ e) (hpaced : p.PacedBetween (a + 1) e)
    (depth : loops.length < 64) (hloops : loops.length = (p.openBefore a).length)
    {remaining : Int32} (hpos : 1 ≤ remaining) :
    ∀ t : Pulse κ α σ, t.Stands p (a + 1) (⟨a, remaining⟩ :: loops) 0 →
      (∀ k, a + 1 ≤ k → k < e → t.visited k ≤ 1) →
      ∃ n t', Plays I n t t' ∧ t'.Stands p (e + 1) loops 0 ∧
        n * p.timesAt (a + 1) = remaining.toNatClampNeg * p.ticksBetween (a + 1) e ∧
        ∀ k, t'.visited k ≤ inside (a + 1) (e + 1) k := by
  refine passes_induction (P := fun remaining passes => ∀ t : Pulse κ α σ,
    t.Stands p (a + 1) (⟨a, remaining⟩ :: loops) 0 →
      (∀ k, a + 1 ≤ k → k < e → t.visited k ≤ 1) →
      ∃ n t', Plays I n t t' ∧ t'.Stands p (e + 1) loops 0 ∧
        n * p.timesAt (a + 1) = passes * p.ticksBetween (a + 1) e ∧
        ∀ k, t'.visited k ≤ inside (a + 1) (e + 1) k) ?_ ?_ hpos
  · intro remaining _ last t stands fresh
    obtain ⟨n, u, plays, standsEnd, hn, hvisited⟩ :=
      pass_plays body hi hs hpaced stands hloops fresh
    obtain ⟨t', hstep, standsBehind, hvisited'⟩ := end_steps hj he hae standsEnd depth hvisited
      (Program.Moves.close (s := ⟨e, ⟨a, remaining⟩ :: loops, []⟩) hj he rfl last).next?
    refine ⟨n, t', plays.trans (.step hstep (.refl t')), standsBehind, ?_, hvisited'⟩
    rw [hn, Nat.one_mul]
  · intro remaining passes _ more ih t stands fresh
    obtain ⟨n, u, plays, standsEnd, hn, hvisited⟩ :=
      pass_plays body hi hs hpaced stands hloops fresh
    obtain ⟨v, hstep, standsAgain, hvisited'⟩ := end_steps hj he hae standsEnd depth hvisited
      (Program.Moves.again (s := ⟨e, ⟨a, remaining⟩ :: loops, []⟩) hj he rfl more).next?
    obtain ⟨m, t', plays', standsBehind, hm, hvisitedAll⟩ := ih v standsAgain
      fun k _ _ => Nat.le_trans (hvisited' k) (inside_le_one _ _ k)
    refine ⟨n + m, t', plays.trans (.step hstep plays'), standsBehind, ?_, hvisitedAll⟩
    rw [Nat.add_mul, hn, hm, Nat.add_mul, Nat.one_mul, Nat.add_comm]

/-- A loop that is entered plays as often as it has passes. -/
theorem playsThrough_loop (paced : p.Paced) (body : PlaysThrough I p (a + 1) e)
    (balanced : p.Balanced (a + 1) e) (hi : p.get? a = some i) (hs : i.flow = .loopStart)
    (entered : ¬ i.count ≤ 0) {j : Instruction κ α} (hj : p.get? e = some j)
    (he : j.flow = .loopEnd) : PlaysThrough I p a (e + 1) := by
  intro t loops stands hloops fresh
  have hae := balanced.le
  have hcount : 1 ≤ i.count := by grind
  have hpaced := paced.body_paced balanced hi hs (Int32.not_le.mp entered) hj he
  have depth : loops.length < 64 := by
    have := paced.depth (a + 1) (Program.lt_size_of_get? hi)
    rw [Program.openBefore_start hi hs, List.length_cons, ← hloops] at this
    omega
  have run := stands.runs hi (fresh a (Nat.le_refl a) (by omega))
  obtain ⟨u, hstep, stands', hvisited⟩ := stands.bracket run (Or.inl hs) (Nat.le_of_lt depth)
    (fun _ _ => depth)
    (Program.Moves.enter (s := ⟨a, loops, []⟩) hi hs entered).next?
  have fresh' : ∀ k, a + 1 ≤ k → k < e → u.visited k ≤ 1 := by
    intro k hak hke
    have h₁ := hvisited k
    have h₂ := fresh k (by omega) (by omega)
    rw [if_neg (by omega)] at h₁
    omega
  obtain ⟨n, t', plays, standsBehind, hn, hvisited'⟩ :=
    passes_play body hi hs hj he hae hpaced depth hloops hcount u stands' fresh'
  have hinside : ∀ k, t'.visited k ≤ inside a (e + 1) k := by
    intro k
    have := inside_cons (by omega : a + 1 ≤ e + 1) k
    exact Nat.le_trans (hvisited' k) (by omega)
  refine ⟨n, t', .step hstep plays, standsBehind, ?_, fun k => ?_, fun _ => hinside⟩
  · -- every tick of the body counts once for each pass, on both sides
    obtain ⟨m, hm⟩ := exists_passes hcount
    rw [Program.timesAt_body hi hs, Nat.mul_left_comm, hm] at hn
    rw [Program.ticksBetween_loop hi hs hae hj he]
    exact Nat.eq_of_mul_eq_mul_left (Nat.succ_pos m) hn
  · exact Nat.le_trans (hinside k) (Nat.le_add_left _ _)

/-- Every balanced stretch of a paced script plays to its end. -/
theorem playsThrough_balanced (paced : p.Paced) (steady : I.Steady) (h : p.Balanced a b) :
    PlaysThrough I p a b := by
  induction h with
  | nil a =>
      intro t loops stands _ _
      refine ⟨0, t, .refl t, stands, ?_, .refl p a t.visited⟩
      rw [Program.ticksBetween_self, Nat.zero_mul]
  | plain hi hs he rest ih =>
      have hopen := Program.openBefore_plain hi hs he
      rcases paced.flow_of_get? hi with hf | hf | hf | hf
      · exact (playsThrough_instant steady hi hf).trans ih (Nat.le_succ _) rest.le hopen
      · exact (playsThrough_timed steady hi hf).trans ih (Nat.le_succ _) rest.le hopen
      · exact absurd hf hs
      · exact absurd hf he
  | @loop a e b i j hi hs body hj he rest ihbody ihrest =>
      have hopen : p.openBefore (e + 1) = p.openBefore a :=
        (Program.Balanced.loop hi hs body hj he (.nil _)).openBefore_eq
      have hle : a ≤ e + 1 := by
        have := body.le
        omega
      by_cases hcount : i.count ≤ 0
      · exact (playsThrough_skip paced hi hs hcount body hj he).trans ihrest hle rest.le hopen
      · exact (playsThrough_loop paced ihbody body hi hs hcount hj he).trans ihrest hle rest.le hopen

/-! ### From ticks to updates -/

/-- A run in which no tick ends is part of the tick that its end is in. -/
theorem Plays.takes_last (h : Plays I n t u) (hn : n = 0) {running : Bool} {c : Cursor κ α} {state : σ}
    (hu : u.step I = .ok (.done running c state)) : ∃ m, Takes I m t (.ok (running, c, state)) := by
  induction h with
  | refl _ => exact ⟨1, .done hu⟩
  | step h _ ih =>
      obtain ⟨m, takes⟩ := ih hn hu
      exact ⟨m + 1, .next h takes⟩
  | tick _ _ _ => exact absurd hn (Nat.succ_ne_zero _)

/-- A longer run is a tick and the run from the next tick on. -/
theorem Plays.takes_tick (h : Plays I n t u) (hn : n = m + 1) :
    ∃ k c state, Takes I k t (.ok (true, c, state)) ∧ Plays I m (.ofCursor c state) u := by
  induction h with
  | refl _ => exact absurd hn (Nat.succ_ne_zero m).symm
  | step h _ ih =>
      obtain ⟨k, c, state, takes, plays⟩ := ih hn
      exact ⟨k + 1, c, state, .next h takes, plays⟩
  | @tick n _ _ c state h rest _ =>
      obtain rfl : n = m := Nat.succ.inj hn
      exact ⟨1, c, state, .done h, rest⟩

end Pulse

namespace Cursor

variable {I : Interpreter κ α σ} {p : Program κ α} {c c' : Cursor κ α} {u : Pulse κ α σ}
  {state state' : σ} {n : Nat}

/-- A run of `n` ticks up to the end of the script, as updates: `n` of them say that the script
has more, and those that follow say that it has not. -/
theorem updates_of_plays (hc : c.Reachable p) (unfinished : c.finished = false)
    (plays : Pulse.Plays I n (.ofCursor c state) u) (hlast : u.step I = .ok (.done false c' state'))
    (finished : c'.finished = true) (k : Nat) :
    ∃ d s, updates I k c state
        = .ok (List.replicate (min k n) true ++ List.replicate (k - n) false, d, s) ∧
      (k ≤ n → d.fault = none) ∧ (n < k → d = c') := by
  induction k generalizing c state n with
  | zero =>
      refine ⟨c, state, ?_, fun _ => hc.ready.faultless unfinished,
        fun h => absurd h (Nat.not_lt_zero n)⟩
      rw [Nat.zero_min, Nat.zero_sub]
      rfl
  | succ k ih =>
      cases n with
      | zero =>
          obtain ⟨m, takes⟩ := plays.takes_last rfl hlast
          have hu := hc.update_eq unfinished takes
          refine ⟨c', state', ?_, fun h => absurd h (Nat.not_succ_le_zero k), fun _ => rfl⟩
          rw [updates, hu]
          show (updates I k c' state' >>= _) = _
          rw [updates_finished finished, Nat.min_zero, Nat.sub_zero]
          rfl
      | succ n =>
          obtain ⟨m, c₁, s₁, takes, plays'⟩ := plays.takes_tick rfl
          have hu := hc.update_eq unfinished takes
          cases hc.settles hu with
          | waits unfinished₁ _ _ =>
              obtain ⟨d, s, hupdates, hfault, hend⟩ := ih (.update hc hu) unfinished₁ plays'
              refine ⟨d, s, ?_, fun h => hfault (Nat.le_of_succ_le_succ h),
                fun h => hend (Nat.lt_of_succ_lt_succ h)⟩
              rw [updates, hu]
              show (updates I k c₁ s₁ >>= _) = _
              rw [hupdates, Nat.succ_min_succ, List.replicate_succ, Nat.succ_sub_succ]
              rfl

end Cursor

namespace Program

variable {I : Interpreter κ α σ} {p : Program κ α}

/-- A paced script plays to the end of its tape. -/
theorem Paced.plays (paced : p.Paced) (steady : I.Steady) (state : σ) :
    ∃ u, Pulse.Plays I p.ticks (.ofCursor (.ofProgram p) state) u ∧ u.Stands p p.size [] 0 := by
  have stands : (Pulse.ofCursor (Cursor.ofProgram p) state).Stands p 0 [] 0 :=
    ⟨rfl, rfl, rfl, rfl, rfl, (Cursor.ofProgram_ready p).sound rfl state⟩
  have fresh : ∀ k, 0 ≤ k → k < p.size →
      (Pulse.ofCursor (Cursor.ofProgram p) state).visited k ≤ 1 := by
    intro k _ _
    rw [Pulse.visited_ofCursor]
    exact Nat.zero_le 1
  obtain ⟨n, u, plays, stands', hn, -⟩ :=
    Pulse.playsThrough_balanced paced steady paced.balances.balanced _ [] stands rfl fresh
  have hticks : n = p.ticks := by
    rw [ticks, ← hn]
    simp [timesAt, openBefore_zero]
  exact ⟨u, hticks ▸ plays, stands'⟩

/--
**A paced script lasts exactly as long as it is written to.**  Against an interpreter
that never lets go early, no update of it ever records an error.  As many updates as
its timed instructions take, each as often as the loops around it run, say that the
script has more; all later ones say that it has not, and then nothing is left on the
stacks and nothing is remembered.
-/
theorem paced_lasts (paced : p.Paced) (steady : I.Steady) (state : σ) (k : Nat) :
    ∃ c state', Cursor.updates I k (.ofProgram p) state
        = .ok (List.replicate (min k p.ticks) true ++ List.replicate (k - p.ticks) false,
          c, state') ∧
      c.fault = none ∧
      (p.ticks < k →
        c.finished = true ∧ c.loops = [] ∧ c.calls = [] ∧ c.scratch.isEmpty = true) := by
  obtain ⟨u, plays, stands⟩ := paced.plays steady state
  have hoff : u.cursor.program.get? u.cursor.ip = none := by
    rw [stands.program, stands.ip]
    exact Array.getElem?_eq_none (Nat.le_refl _)
  have hlast := Pulse.step_offTape (I := I) hoff
  obtain ⟨c, state', hupdates, hfault, hend⟩ :=
    Cursor.updates_of_plays .start rfl plays hlast rfl k
  refine ⟨c, state', hupdates, ?_, fun hk => ?_⟩
  · rcases Nat.lt_or_ge p.ticks k with hk | hk
    · rw [hend hk]
      exact stands.sound.faultless
    · exact hfault hk
  · cases (Pulse.outcome_of_step hlast).settles stands.sound with
    | ended _ idle =>
        obtain rfl := hend hk
        exact ⟨rfl, stands.loops, stands.calls, idle.scratch_isEmpty⟩

/-- Two passes of a wait, a loop that is not entered, and a loop of three short waits. -/
def slowPulse : Program Bullet.Kind Float32 :=
  .ofInstructions [.loopStart 2, .wait 2, .loopStart 0, .wait 9, .loopEnd,
    .loopStart 3, Bullet.Command.setSpeed 1.0, .wait 1, .loopEnd, .loopEnd]

/-- A probe with no kinds that halt and no ticks that let go. -/
theorem steady_probe (plan : ScratchPlan) :
    ((⟨[], #[], plan⟩ : Probe Bullet.Kind).interpreter (α := Float32)).Steady := by
  refine ⟨fun i log => ⟨_, rfl⟩, fun i frame duration t given log => ⟨_, _, rfl⟩, ?_⟩
  intro i given log
  cases plan <;> exact ⟨_, _, _, rfl⟩

theorem paced_lasts_slowPulse :
    let I : Interpreter Bullet.Kind Float32 _ :=
      (⟨[], #[], .capture⟩ : Probe Bullet.Kind).interpreter
    slowPulse.Paced ∧ I.Steady ∧ slowPulse.ticks = 10 ∧
      ∃ c log, Cursor.updates I 11 (.ofProgram slowPulse) ⟨#[], 0⟩
          = .ok (List.replicate 10 true ++ [false], c, log) ∧
        c.fault = none ∧ c.finished = true ∧ c.scratch.isEmpty = true := by
  intro I
  have paced : slowPulse.Paced := by decide +kernel
  have hticks : slowPulse.ticks = 10 := by decide +kernel
  obtain ⟨c, log, hupdates, hfault, hend⟩ := paced_lasts paced (steady_probe .capture) ⟨#[], 0⟩ 11
  rw [hticks] at hupdates hend
  obtain ⟨hfinished, -, -, hscratch⟩ := hend (by decide)
  exact ⟨paced, steady_probe .capture, hticks, c, log, hupdates, hfault, hfinished, hscratch⟩

end Program

end Barrage
