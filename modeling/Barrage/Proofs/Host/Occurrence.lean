/-
One occurrence of an instruction, tick by tick, with an owner that interferes.

An occurrence begins when the dispatch loop comes to an instruction on which no tick has
been spent, and it goes on with every tick that starts where the one before has been
suspended.  Between two ticks the owner may do with the actor whatever it likes, and the
host of the next tick may be another one.  A later pass of a loop comes to the same
instruction with no ticks spent, so it is another occurrence.

What ties the ticks of an occurrence together is what the first one captures of the
actor.  All of them start from that, `Steering.StartsFrom`: the first has it in front of
it, and to the others it is handed back.
-/
import Barrage.Proofs.Host.Memory
import Barrage.Proofs.Script.Span

namespace Barrage

variable {κ α τ η : Type} [Vocabulary κ] [Scalar α]

namespace Steering

variable (s : Steering κ α τ)

/-- In a tick of a script of `p` the dispatch loop comes to `i`. -/
inductive Comes (p : Program κ α) (i : Instruction κ α) (host : Host α η)
    (t : Pulse κ α (τ × η)) : Prop
  | intro {c : Cursor κ α} {x : τ} {h : η} (led : s.Leads p c) (unfinished : c.finished = false)
      (within : (Pulse.ofCursor c (x, h)).Within (s.interpreter host) t) (run : t.Runs i)

/-- After `k` ticks of one occurrence of `i`, the dispatch loop comes to it once more.  The first of
them has found the actor as `entry`. -/
inductive Occurs (p : Program κ α) (i : Instruction κ α) (entry : τ) :
    ∀ {η : Type}, Host α η → Nat → Pulse κ α (τ × η) → Prop
  | enter {η : Type} {host : Host α η} {t : Pulse κ α (τ × η)} (comes : s.Comes p i host t)
      (first : t.cursor.frame = 0) (found : t.state.1 = entry) : Occurs p i entry host 0 t
  | again {η η' : Type} {host : Host α η} {host' : Host α η'} {k : Nat} {t : Pulse κ α (τ × η)}
      {c : Cursor κ α} {state : τ × η} {x : τ} {h : η'} (before : Occurs p i entry host k t)
      (hstep : t.step (s.interpreter host) = .ok (.done true c state))
      (comes : s.Comes p i host' (.ofCursor c (x, h))) :
      Occurs p i entry host' (k + 1) (.ofCursor c (x, h))

/-- Whether a tick captures anything depends on the instruction alone. -/
def CapturesByKind : Prop :=
  ∀ i x y, (s.captured? i x).isSome = (s.captured? i y).isSome

/-- The handler of `i` is given what it needs to start from `entry`: that actor itself with nothing
remembered yet, or what has been captured of it. -/
def StartsFrom (i : Instruction κ α) (entry : τ) (given : Option (Scratch α)) (x : τ) : Prop :=
  (given = none ∧ x = entry) ∨ ∀ value, s.captured? i entry = some value → given = some value

/-- How far an occurrence is after `k` ticks. -/
structure Stands (i : Instruction κ α) (entry : τ) (k : Nat) (t : Pulse κ α (τ × η)) : Prop where
  frame : t.cursor.frame = frameAt k
  timely : i.flow = .timed → k ≤ i.duration.toNatClampNeg
  first : k = 0 → t.state.1 = entry
  later : k ≠ 0 → ∀ value, s.captured? i entry = some value → t.kept = some value

/-- A tick of a script and its actor comes to a result whenever one of the dispatch loop does. -/
def Answers : Prop :=
  ∀ {η : Type} {host : Host α η} {c c' : Cursor κ α} {x x' : τ} {h h₁ : η} {running : Bool},
    c.finished = false → c.update (s.interpreter host) (x, h) = .ok (running, c', x', h₁) →
      ∃ h', s.update host c x h = .ok (running, c', x', h')

variable {s} {p : Program κ α} {i : Instruction κ α} {host : Host α η} {entry : τ} {k : Nat}
  {t : Pulse κ α (τ × η)} {c : Cursor κ α} {x : τ} {h : η}

/-! ### Every point belongs to an occurrence

A point at which no tick has been spent begins one.  Any other is the start of its tick,
and the tick before was suspended there; so the occurrence is found by going back from
tick to tick, which is an induction on how the script has been led there.
-/

namespace Comes

theorem run (comes : s.Comes p i host t) : t.Runs i := by
  cases comes
  assumption

theorem sound (comes : s.Comes p i host t) : t.Sound := by
  obtain ⟨led, unfinished, within, -⟩ := comes
  exact within.sound (led.reachable.ready.sound unfinished _)

theorem remembers (comes : s.Comes p i host t) (recalls : s.Recalls) : s.Remembers t.cursor := by
  obtain @⟨c, x, h, led, unfinished, within, -⟩ := comes
  have remembers : s.Remembers (Pulse.ofCursor c (x, h)).cursor := led.remembers recalls
  exact remembers.within (led.reachable.ready.sound unfinished _) within

/-- If an instruction has suspended a tick, the next one comes to it, whatever its host and the
actor are then. -/
theorem again (comes : s.Comes p i host t) (answers : s.Answers) {state : τ × η}
    (hstep : t.step (s.interpreter host) = .ok (.done true c state)) {η' : Type}
    (host' : Host α η') (x : τ) (h : η') : s.Comes p i host' (.ofCursor c (x, h)) := by
  obtain ⟨led, unfinished, within, run⟩ := comes
  obtain ⟨n, takes⟩ := within.takes (.done hstep)
  have hscript := led.reachable.update_eq unfinished takes
  obtain ⟨h₁, hu⟩ := answers unfinished hscript
  exact ⟨.tick led hu, Cursor.unfinished_of_running hscript, .start, run.again hstep _⟩

end Comes

/-- A tick that comes to an instruction on which ticks have been spent starts there. -/
theorem Leads.eq_start (led : s.Leads p c) (unfinished : c.finished = false)
    (hwithin : (Pulse.ofCursor c (x, h)).Within (s.interpreter host) t)
    (begun : t.cursor.frame ≠ 0) : t = .ofCursor c (x, h) := by
  rcases hwithin.start_or_idle (led.reachable.ready.sound unfinished _) with start | idle
  · exact start
  · exact absurd idle.frame begun

/-- A tick after which a script has more was one of a script that had more, and is suspended. -/
theorem Leads.suspended {host : Host α η} {c' : Cursor κ α} {x' : τ} {h' : η} {running : Bool}
    (led : s.Leads p c) (hu : s.update host c x h = .ok (running, c', x', h'))
    (unfinished' : c'.finished = false) : c.finished = false ∧ running = true := by
  obtain ⟨h₁, hscript⟩ := s.runs hu
  constructor
  · by_contra hfinished
    rw [Cursor.update_finished (Bool.eq_true_of_not_eq_false hfinished)] at hscript
    cases hscript
    exact hfinished unfinished'
  · cases led.reachable.settles hscript with
    | waits _ _ _ => rfl
    | ended finished _ => exact absurd (finished.symm.trans unfinished') (by simp)

/-- Wherever a tick comes to an instruction, that is one of the ticks of an occurrence. -/
theorem Leads.occurs (led : s.Leads p c) : ∀ {η : Type} {host : Host α η} {x : τ} {h : η}
    {t : Pulse κ α (τ × η)}, c.finished = false →
      (Pulse.ofCursor c (x, h)).Within (s.interpreter host) t → t.Runs i →
      ∃ entry k, s.Occurs p i entry host k t := by
  induction led with
  | start =>
      intro η host x h t unfinished within run
      have first : t.cursor.frame = 0 := by
        by_contra begun
        exact begun (Leads.start.eq_start unfinished within begun ▸ rfl)
      exact ⟨t.state.1, 0, .enter ⟨.start, unfinished, within, run⟩ first rfl⟩
  | @tick η₀ host₀ c₀ c x₀ x' h₀ h' running led₀ hu ih =>
      intro η host x h t unfinished within run
      have led : s.Leads p c := .tick led₀ hu
      have comes : s.Comes p i host t := ⟨led, unfinished, within, run⟩
      by_cases first : t.cursor.frame = 0
      · exact ⟨t.state.1, 0, .enter comes first rfl⟩
      · -- the tick before has been suspended where this one starts
        obtain rfl := led.eq_start unfinished within first
        obtain ⟨unfinished₀, rfl⟩ := led₀.suspended hu unfinished
        obtain ⟨t₀, h₁, within₀, hlast⟩ := led₀.last unfinished₀ hu
        obtain ⟨entry, k, before⟩ := ih unfinished₀ within₀ (run.before hlast)
        exact ⟨entry, k + 1, .again before hlast comes⟩

theorem Comes.occurs (comes : s.Comes p i host t) : ∃ entry k, s.Occurs p i entry host k t := by
  obtain ⟨led, unfinished, within, run⟩ := comes
  exact led.occurs unfinished within run

/-! ### Every tick starts from what the first one has found

By induction on the ticks, with the owner free to replace the actor after each.  What is
remembered is out of its reach, and the handlers only ever give it back as it was.
-/

theorem Occurs.comes (occurs : s.Occurs p i entry host k t) : s.Comes p i host t := by
  cases occurs <;> assumption

/-- One tick of an occurrence, whatever the owner makes of the actor after it. -/
theorem Stands.again {η' : Type} {state : τ × η} (recalls : s.Recalls) (captures : s.CapturesByKind)
    (stands : s.Stands i entry k t) (comes : s.Comes p i host t)
    (hstep : t.step (s.interpreter host) = .ok (.done true c state)) (x : τ) (h : η') :
    s.Stands i entry (k + 1) (.ofCursor c (x, h)) := by
  obtain ⟨hold, left, call, rfl⟩ := Pulse.suspended_of_step comes.run hstep
  obtain ⟨-, begins, keeps⟩ :=
    recalls.pending comes.sound (comes.remembers recalls) comes.run call
  refine ⟨?_, ?_, fun hzero => absurd hzero (Nat.succ_ne_zero k), fun _ value hvalue => ?_⟩
  · show nextFrame t.cursor.frame = _
    rw [stands.frame, nextFrame_frameAt]
  · intro timed
    exact (Pulse.holds_iff_of_frame stands.frame (Or.inl timed)).mp hold timed
  · show (t.cursor.taken.held left).scratch[(t.cursor.taken.held left).ip]? = some value
    rw [scratch_held comes.sound]
    by_cases hk : k = 0
    · subst hk
      exact begins stands.frame value (stands.first rfl ▸ hvalue)
    · -- what the first tick has captured, the later ones leave as it was
      have begun : t.cursor.frame ≠ 0 := stands.frame ▸ frameAt_ne_zero hk
      have hsome : (s.captured? i t.state.1).isSome := by
        rw [captures i t.state.1 entry, hvalue]
        rfl
      exact (keeps begun hsome).trans (stands.later hk value hvalue)

theorem Occurs.stands (recalls : s.Recalls) (captures : s.CapturesByKind)
    (occurs : s.Occurs p i entry host k t) : s.Stands i entry k t := by
  induction occurs with
  | enter _ first found =>
      exact ⟨first, fun _ => Nat.zero_le _, fun _ => found, fun hne => absurd rfl hne⟩
  | again before hstep _ ih => exact ih.again recalls captures before.comes hstep _ _

theorem Occurs.startsFrom (recalls : s.Recalls) (captures : s.CapturesByKind)
    (occurs : s.Occurs p i entry host k t) : s.StartsFrom i entry t.kept t.state.1 := by
  have stands := occurs.stands recalls captures
  by_cases hk : k = 0
  · subst hk
    exact Or.inl ⟨occurs.comes.sound.kept_first stands.frame, stands.first rfl⟩
  · exact Or.inr (stands.later hk)

end Steering

/-! ### The vocabularies -/

theorem Bullet.capturesByKind : (steering : Steering Kind α (Motion α)).CapturesByKind := by
  intro i x y
  simp only [steering, captured?]
  cases i.kind <;> rfl

theorem Enemy.capturesByKind : (steering : Steering Kind α (Body α)).CapturesByKind := by
  intro i x y
  simp only [steering, captured?]
  cases i.kind <;> rfl

theorem Bullet.answers : (steering : Steering Kind α (Motion α)).Answers := by
  intro η host c c' m m' h h₁ running unfinished hscript
  change c.update (interpreter host) (m, h) = _ at hscript
  show ∃ h', update host c m h = _
  rw [update, if_neg (by simp [unfinished]), hscript]
  dsimp only [bind, Except.bind]
  split <;> exact ⟨_, rfl⟩

theorem Enemy.answers : (steering : Steering Kind α (Body α)).Answers := by
  intro η host c c' b b' h h₁ running unfinished hscript
  change c.update (interpreter host) (b, h) = _ at hscript
  show ∃ h', update host c b h = _
  rw [update, if_neg (by simp [unfinished]), hscript]
  dsimp only [bind, Except.bind]
  split <;> exact ⟨_, rfl⟩

end Barrage
