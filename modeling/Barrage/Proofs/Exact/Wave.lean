/-
A wave, with exact sums.

A wave never sets the heading.  Each of its ticks adds what the offset has grown by since the
tick before, and what is remembered is the offset that it has come to; the end of the span
takes that away.  So what is left of the heading without the offset remembered is what it
would be without the wave: the heading that the first tick has found, and what the owner has
turned the bullet by since then.  This is `Sways.without`, and it goes from one tick to the
next by itself, since the offset that a tick has added is the one that it leaves to the next.

Nothing is needed of the offsets, so only sums and differences have to be exact.  What a
product, a quotient or a sine comes to is left open.
-/
import Barrage.Proofs.Exact.Arithmetic
import Barrage.Proofs.Host.Occurrence
import Barrage.Proofs.Host.Record

namespace Barrage

/-! ### What is needed of sums

Only the laws by which an offset that is put in and an offset that is taken out
cancel.  Every ordered field has them.  Binary32 numbers do not, and there a wave leaves
the rounding errors of its additions behind.
-/

namespace Scalar

/-- Addition is that of a commutative group and subtraction undoes it.  The other operations may be
anything. -/
class ExactSums (α : Type) [Scalar α] : Prop where
  add_zero : ∀ a : α, a + 0.0 = a
  add_comm : ∀ a b : α, a + b = b + a
  add_assoc : ∀ a b c : α, a + b + c = a + (b + c)
  add_sub_cancel : ∀ a b : α, a + b - b = a
  sub_add_cancel : ∀ a b : α, a - b + b = a

variable {α : Type} [Scalar α]

/-- Some numbers taken together. -/
def total (xs : List α) : α :=
  xs.foldl (· + ·) 0.0

theorem total_concat (xs : List α) (x : α) : total (xs ++ [x]) = total xs + x := by
  simp only [total, List.foldl_append, List.foldl_cons, List.foldl_nil]

namespace ExactSums

variable [ExactSums α]

theorem sub_zero (a : α) : a - 0.0 = a := by
  have h := add_sub_cancel a 0.0
  rwa [add_zero] at h

theorem add_sub_right (a b c : α) : a + b - c = a - c + b := by
  calc a + b - c = a - c + c + b - c := by rw [sub_add_cancel]
    _ = a - c + b + c - c := by rw [add_assoc (a - c), add_comm c, ← add_assoc]
    _ = a - c + b := by rw [add_sub_cancel]

/-- What an offset has grown by puts the new one in the place of the old. -/
theorem add_growth_sub (a old new : α) : a + (new - old) - new = a - old := by
  calc a + (new - old) - new = a - old + old + (new - old) - new := by rw [sub_add_cancel]
    _ = a - old + new - new := by rw [add_assoc (a - old), add_comm old, sub_add_cancel]
    _ = a - old := by rw [add_sub_cancel]

/-- Every number comes from any other by a change. -/
theorem add_change (a b : α) : a + (b - a) = b := by
  rw [add_comm, sub_add_cancel]

end ExactSums

end Scalar

open Exact in
instance {K : Type} [Field K] [LinearOrder K] [IsStrictOrderedRing K] [FloorRing K] [Functions K] :
    Scalar.ExactSums K where
  add_zero a := by norm_num
  add_comm a b := by ring
  add_assoc a b c := by ring
  add_sub_cancel a b := by ring
  sub_add_cancel a b := by ring

namespace Bullet

variable {α η : Type} [Scalar α] {p : Program Kind α} {i : Instruction Kind α} {start : α}
  {host : Host α η} {changes : List α} {t : Pulse Kind α (Motion α × η)}

/-! ### Occurrences, with what the owner has added

The owner sets the heading to what it likes.  With exact sums that is an addition, so
`Sways` lists the changes and loses no occurrence; this is `sways_of_occurs`.
-/

/-- An occurrence of `i` comes to its next tick, or to its end.  The first tick has found the
heading `start`, and after each tick the owner has added to the heading, all in all `changes`. -/
inductive Sways (p : Program Kind α) (i : Instruction Kind α) (start : α) :
    ∀ {η : Type}, Host α η → List α → Pulse Kind α (Motion α × η) → Prop
  | enter {η : Type} {host : Host α η} {t : Pulse Kind α (Motion α × η)}
      (comes : steering.Comes p i host t) (first : t.cursor.frame = 0)
      (found : t.state.1.heading = start) : Sways p i start host [] t
  | again {η η' : Type} {host : Host α η} {host' : Host α η'} {changes : List α} {change : α}
      {t : Pulse Kind α (Motion α × η)} {c : Cursor Kind α} {m x : Motion α} {h₁ : η} {h : η'}
      (before : Sways p i start host changes t)
      (hstep : t.step (interpreter host) = .ok (.done true c (m, h₁)))
      (turned : x.heading = m.heading + change) :
      Sways p i start host' (changes ++ [change]) (.ofCursor c (x, h))

theorem Sways.occurs (sways : Sways p i start host changes t) :
    ∃ entry, steering.Occurs p i entry host changes.length t := by
  induction sways with
  | enter comes first found => exact ⟨_, .enter comes first rfl⟩
  | again _ hstep _ ih =>
      obtain ⟨entry, occurs⟩ := ih
      rw [List.length_append]
      exact ⟨entry, .again occurs hstep (occurs.comes.again answers hstep _ _ _)⟩

/-- Whatever the owner does to the heading is a change of it, if sums are exact. -/
theorem sways_of_occurs [Scalar.ExactSums α] {entry : Motion α} {k : Nat}
    (occurs : steering.Occurs p i entry host k t) :
    ∃ changes, changes.length = k ∧ Sways p i entry.heading host changes t := by
  induction occurs with
  | enter comes first found => exact ⟨[], rfl, .enter comes first (congrArg Motion.heading found)⟩
  | @again _ _ _ _ _ _ _ state x _ _ hstep _ ih =>
      obtain ⟨changes, rfl, sways⟩ := ih
      have turned := (Scalar.ExactSums.add_change state.1.heading x.heading).symm
      exact ⟨changes ++ [x.heading - state.1.heading], List.length_append,
        .again sways hstep turned⟩

/-! ### One tick adds the growth of the offset -/

theorem tick_wave (wave : i.kind = .wave) (frame : Int32) (fraction : α)
    (given : Option (Scratch α)) (m : Motion α) :
    let offset := waveOffset i.first i.second (frame + 1)
    tick host i frame fraction given m = .ok (.pending, some (.wave offset),
      { m with heading := m.heading + (offset - appliedWave given) }) := by
  simp only [tick, wave]

/-- The end of a wave takes away what it has added. -/
theorem conclude_wave [Scalar.ExactSums α] (wave : i.kind = .wave) {given : Option (Scratch α)}
    (typed : given = none ∨ ∃ applied, given = some (.wave applied)) (m : Motion α) :
    conclude i given m = { m with heading := m.heading - appliedWave given } := by
  rcases typed with rfl | ⟨applied, rfl⟩
  · simp only [conclude, wave, appliedWave, Scalar.ExactSums.sub_zero]
  · simp only [conclude, wave, appliedWave]

omit [Scalar α] in
theorem timed_of_wave (wave : i.kind = .wave) : i.flow = .timed := by
  show i.kind.flow = .timed
  rw [wave]
  rfl

theorem Sways.stands (sways : Sways p i start host changes t) :
    ∃ entry, steering.Stands i entry changes.length t := by
  obtain ⟨entry, occurs⟩ := sways.occurs
  exact ⟨entry, occurs.stands recalls capturesByKind⟩

theorem Sways.comes (sways : Sways p i start host changes t) : steering.Comes p i host t := by
  obtain ⟨entry, occurs⟩ := sways.occurs
  exact occurs.comes

/-- What is handed to the handler of a wave is nothing or the offset of the tick before. -/
theorem Sways.typed (wave : i.kind = .wave) (sways : Sways p i start host changes t) :
    changes = [] ∧ t.kept = none ∨ changes ≠ [] ∧ ∃ applied, t.kept = some (.wave applied) := by
  obtain ⟨entry, stands⟩ := sways.stands
  by_cases first : changes = []
  · have frame : t.cursor.frame = 0 := by
      rw [stands.frame, first]
      rfl
    exact Or.inl ⟨first, sways.comes.sound.kept_first frame⟩
  · have frame : t.cursor.frame ≠ 0 := by
      rw [stands.frame]
      exact frameAt_ne_zero (mt List.length_eq_zero_iff.mp first)
    have typed : t.kept.map Scratch.variant = some .wave := by
      rw [show some Scratch.Variant.wave = i.kind.variant? by rw [wave]; rfl]
      exact sways.comes.remembers recalls i sways.comes.run.here frame
    exact Or.inr ⟨first, Scratch.eq_wave_of_variant typed⟩

theorem Sways.step (wave : i.kind = .wave) (sways : Sways p i start host changes t)
    (more : changes.length < i.duration.toNatClampNeg) :
    let offset := waveOffset i.first i.second (t.cursor.frame + 1)
    t.step (interpreter host) = .ok (.done true (t.cursor.taken.held (some (.wave offset)))
      ({ t.state.1 with heading := t.state.1.heading + (offset - appliedWave t.kept) },
        t.state.2)) := by
  intro offset
  obtain ⟨entry, stands⟩ := sways.stands
  have hold : t.Holds i :=
    (Pulse.holds_iff_of_frame stands.frame (Or.inl (timed_of_wave wave))).mpr fun _ => more
  rw [Pulse.step_hold sways.comes.run hold]
  simp only [interpreter, tick_wave wave]
  rfl

theorem Sways.more (wave : i.kind = .wave) (sways : Sways p i start host changes t)
    {c : Cursor Kind α} {state : Motion α × η}
    (hstep : t.step (interpreter host) = .ok (.done true c state)) :
    changes.length < i.duration.toNatClampNeg := by
  obtain ⟨entry, stands⟩ := sways.stands
  have hold := (Pulse.suspended_of_step sways.comes.run hstep).1
  exact (Pulse.holds_iff_of_frame stands.frame (Or.inl (timed_of_wave wave))).mp hold
    (timed_of_wave wave)

/-! ### The heading without the wave

The difference between the heading and the remembered offset is the invariant.  A tick
changes both by the same amount and the owner changes the heading alone, so what it
changes is what remains when the wave is over.
-/

/-- Without the offset that is remembered the heading is the one found, and what the owner has
added. -/
theorem Sways.without [Scalar.ExactSums α] (wave : i.kind = .wave)
    (sways : Sways p i start host changes t) :
    t.state.1.heading - appliedWave t.kept = start + Scalar.total changes := by
  induction sways with
  | @enter _ _ t comes first found =>
      rw [comes.sound.kept_first first, found]
      show start - 0.0 = start + 0.0
      rw [Scalar.ExactSums.sub_zero, Scalar.ExactSums.add_zero]
  | @again _ _ host _ changes change t c m x h₁ h before hstep turned ih =>
      rw [before.step wave (before.more wave hstep)] at hstep
      cases hstep
      -- the offset that this tick finds is the one that the tick before has left
      have kept : (Pulse.ofCursor (t.cursor.taken.held
          (some (.wave (waveOffset i.first i.second (t.cursor.frame + 1))))) (x, h)).kept =
            some (.wave (waveOffset i.first i.second (t.cursor.frame + 1))) :=
        Steering.scratch_held before.comes.sound
      rw [kept]
      show x.heading - waveOffset i.first i.second (t.cursor.frame + 1) = _
      rw [turned, Scalar.ExactSums.add_sub_right, Scalar.ExactSums.add_growth_sub, ih,
        Scalar.ExactSums.add_assoc, Scalar.total_concat]

/-- What holds of a wave when an occurrence comes to its next tick, or to its end. -/
structure Traceless (i : Instruction Kind α) (start : α) (host : Host α η) (changes : List α)
    (t : Pulse Kind α (Motion α × η)) : Prop where
  timely : changes.length ≤ i.duration.toNatClampNeg
  /-- After the first tick an offset is remembered, and without it the heading is the one found and
  what the owner has added. -/
  held : changes ≠ [] → ∃ applied, t.kept = some (.wave applied) ∧
    t.state.1.heading - applied = start + Scalar.total changes
  /-- A tick within the span changes the heading only, and leaves an offset of which the same is
  true. -/
  sways : changes.length < i.duration.toNatClampNeg → ∃ c heading applied,
    t.step (interpreter host) = .ok (.done true c ({ t.state.1 with heading }, t.state.2)) ∧
      c.scratch[c.ip]? = some (.wave applied) ∧ heading - applied = start + Scalar.total changes
  /-- The end of the span leaves that heading and nothing to remember. -/
  ends : changes.length = i.duration.toNatClampNeg → ∃ c : Cursor Kind α,
    t.step (interpreter host) = .ok (.next (.ofCursor c
      ({ t.state.1 with heading := start + Scalar.total changes }, t.state.2))) ∧
      c.ip = t.cursor.ip + 1 ∧ c.Idle

theorem Sways.traceless [Scalar.ExactSums α] (wave : i.kind = .wave)
    (sways : Sways p i start host changes t) : Traceless i start host changes t := by
  obtain ⟨entry, stands⟩ := sways.stands
  have timely := stands.timely (timed_of_wave wave)
  have without := sways.without wave
  refine ⟨timely, ?_, ?_, ?_⟩
  · intro later
    rcases sways.typed wave with ⟨first, -⟩ | ⟨-, applied, kept⟩
    · exact absurd first later
    · rw [kept] at without
      exact ⟨applied, kept, without⟩
  · intro more
    refine ⟨_, _, _, sways.step wave more, Steering.scratch_held sways.comes.sound, ?_⟩
    rw [Scalar.ExactSums.add_growth_sub, without]
  · intro ended
    have expired : i.duration ≤ t.cursor.frame := by
      rw [stands.frame, ← Int32.not_lt, frameAt_lt, ended]
      exact Nat.lt_irrefl _
    have typed : t.kept = none ∨ ∃ applied, t.kept = some (.wave applied) :=
      (sways.typed wave).imp And.right And.right
    refine ⟨t.cursor.advance, ?_, rfl, Cursor.advance_idle sways.comes.sound.resting⟩
    rw [Pulse.step_finish sways.comes.run (timed_of_wave wave) expired, ← without,
      ← conclude_wave wave typed]
    rfl

/--
**A wave is removed without a trace.**  With exact sums, whatever its amplitude, period and
duration are and the sine comes to, a script comes to a wave only in one of its occurrences:
a new one if no tick has been spent on it, such as in every pass of a loop, and else the
next tick of one, whatever the owner has done since the last.  After each tick the heading
without the offset remembered is the heading found by the first tick and the sum of what the
owner has added since then.  At the end it is exactly that, at once if the duration is not
positive, and nothing is remembered any more.
-/
theorem wave_leavesNoTrace [Scalar.ExactSums α] (wave : i.kind = .wave) (p : Program Kind α) :
    (∀ {η : Type} (host : Host α η) t, steering.Comes p i host t →
      (t.cursor.frame = 0 → Sways p i t.state.1.heading host [] t) ∧
        ∃ start changes, Sways p i start host changes t) ∧
      ∀ {η : Type} (host : Host α η) start changes t,
        Sways p i start host changes t → Traceless i start host changes t := by
  constructor
  · intro η host t comes
    refine ⟨fun first => .enter comes first rfl, ?_⟩
    obtain ⟨entry, k, occurs⟩ := comes.occurs
    obtain ⟨changes, -, sways⟩ := sways_of_occurs occurs
    exact ⟨_, changes, sways⟩
  · intro η host start changes t sways
    exact sways.traceless wave

/-- A bullet that sways for two ticks, twice. -/
noncomputable def swell : Program Kind ℝ :=
  .ofInstructions [.loopStart 2, Command.wave 45 4 2, .loopEnd]

/-- After the first tick the bullet flies on and turns by itself, after the second it is turned
back. -/
theorem wave_leavesNoTrace_turned :
    let wave := Command.wave (45 : ℝ) 4 2
    let host := Host.still (.bare ℝ) fun low _ => low
    ∃ t c, Sways swell wave 90 host [5, -20] t ∧
      t.step (interpreter host) =
        .ok (.next (.ofCursor c ({ t.state.1 with heading := 75 }, ()))) ∧ c.Idle := by
  intro wave host
  obtain ⟨-, traceless⟩ := wave_leavesNoTrace (α := ℝ) (i := wave) rfl swell
  let m : Motion ℝ := { Motion.straight .zero 2 90 with angularVelocity := 5 }
  obtain ⟨t, comes, frame, found⟩ : ∃ t, steering.Comes swell wave host t ∧
      t.cursor.frame = 0 ∧ t.state = (m, ()) :=
    ⟨_, ⟨.start, rfl, .next .start rfl, rfl, by decide⟩, rfl, rfl⟩
  have enters : Sways swell wave 90 host [] t := .enter comes frame (by rw [found]; rfl)
  obtain ⟨c, heading, applied, hstep, -⟩ := (traceless host 90 [] t enters).sways (by decide)
  rw [found] at hstep
  -- the owner lets the bullet fly on, which turns it
  let flown : Motion ℝ := Motion.integrate { m with heading }
  have sways : Sways swell wave 90 host [5] (.ofCursor c (flown, ())) :=
    .again enters hstep rfl
  obtain ⟨c', heading', applied', hstep', -⟩ := (traceless host 90 [5] _ sways).sways (by decide)
  have sways' : Sways swell wave 90 host [5, -20]
      (.ofCursor c' ({ flown with heading := heading' + -20 }, ())) := .again sways hstep' rfl
  obtain ⟨last, hend, -, idle⟩ := (traceless host 90 [5, -20] _ sways').ends rfl
  have left : (90 : ℝ) + Scalar.total [5, -20] = 75 := by
    show (90 : ℝ) + (0.0 + 5 + -20) = 75
    norm_num
  rw [left] at hend
  exact ⟨_, last, sways', hend, idle⟩

end Bullet

end Barrage
