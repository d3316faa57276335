/-
Interpolations are immune to outside interference and land exactly.

The instructions that change a number or a position evenly, or swing it, write a value
of their own on every tick of their span, and at its end the last one.  What the actor
has there by then, by flying on or by its owner, is overwritten and never read again:
only the value found on the first tick is.

`Interpolation` is such an instruction as it is meant, without scratch and phases: where
the value is on a tick, given where it has started, and where it lands.  Each handler
does what the table of its vocabulary says whenever it is given what it needs to start
from the right actor, `Steering.Carries`, and it always is, by `Occurs.startsFrom`.
-/
import Barrage.Proofs.Host.Occurrence

namespace Barrage

variable {κ α β τ η : Type}

/-- A value of an actor, and the way on which an instruction takes it. -/
structure Interpolation (τ β α : Type) where
  read : τ → β
  write : β → τ → τ
  /-- Where it is on a tick, given where it has started, the frame and the fraction of the span that
  is over. -/
  along : (start : β) → (frame : Int32) → (fraction : α) → β
  /-- Where it lands, given where it has started. -/
  final : (start : β) → β

variable [Vocabulary κ] [Scalar α]

/-- What the dispatch of `i` does after `k` ticks of an occurrence that has found `start` on its
first: it writes the value on the way and suspends the script, or it writes the one at the end,
after which the tick goes on and nothing is remembered. -/
inductive Interpolation.Goes (J : Interpolation τ β α) (i : Instruction κ α) (start : β) (k : Nat)
    (t : Pulse κ α (τ × η)) : Except Crash (Step κ α (τ × η)) → Prop
  | moves (left : k < i.duration.toNatClampNeg) (c : Cursor κ α) :
      Goes J i start k t (.ok (.done true c
        (J.write (J.along start (frameAt k) (progress (frameAt k) i.duration)) t.state.1,
          t.state.2)))
  | lands {t' : Pulse κ α (τ × η)} (ended : k = i.duration.toNatClampNeg)
      (written : t'.state = (J.write (J.final start) t.state.1, t.state.2))
      (idle : t'.cursor.Idle) : Goes J i start k t (.ok (.next t'))

/-- The step of `t` changes the actor in the value alone, which is then `v`, and the world not at
all. -/
def Interpolation.Writes (J : Interpolation τ β α) (v : β) (t : Pulse κ α (τ × η))
    (o : Except Crash (Step κ α (τ × η))) : Prop :=
  ∃ r, o = .ok r ∧ r.state = (J.write v t.state.1, t.state.2)

/-- What is written depends on nothing but the start, the operands and the number of the tick. -/
theorem Interpolation.Goes.agree {J : Interpolation τ β α} {i : Instruction κ α} {start : β}
    {k : Nat} {η' : Type} {t : Pulse κ α (τ × η)} {t' : Pulse κ α (τ × η')}
    {o : Except Crash (Step κ α (τ × η))} {o' : Except Crash (Step κ α (τ × η'))}
    (goes : J.Goes i start k t o) (goes' : J.Goes i start k t' o') :
    ∃ v, J.Writes v t o ∧ J.Writes v t' o' := by
  cases goes with
  | moves left c =>
      cases goes' with
      | moves _ c' => exact ⟨_, ⟨_, rfl, rfl⟩, ⟨_, rfl, rfl⟩⟩
      | lands ended _ _ => omega
  | lands ended written _ =>
      cases goes' with
      | moves left _ => omega
      | lands _ written' _ => exact ⟨_, ⟨_, rfl, written⟩, ⟨_, rfl, written'⟩⟩

namespace Steering

variable {s : Steering κ α τ} {J : Interpolation τ β α} {p : Program κ α} {i : Instruction κ α}
  {host : Host α η} {entry : τ} {k : Nat} {t : Pulse κ α (τ × η)}

/-- The handler of `i` takes the value where `J` says, from what it is given to start from. -/
structure Carries (s : Steering κ α τ) (host : Host α η) (i : Instruction κ α)
    (J : Interpolation τ β α) : Prop where
  timed : i.flow = .timed
  moves : ∀ {entry x h given} frame fraction, s.StartsFrom i entry given x → ∃ left,
    (s.interpreter host).timed i (.run frame i.duration fraction) given (x, h)
      = .ok (.pending, left, J.write (J.along (J.read entry) frame fraction) x, h)
  lands : ∀ {entry x h given}, s.StartsFrom i entry given x → ∃ answer left,
    (s.interpreter host).timed i .finish given (x, h)
      = .ok (answer, left, J.write (J.final (J.read entry)) x, h)

theorem Occurs.goes (recalls : s.Recalls) (captures : s.CapturesByKind)
    (carries : s.Carries host i J) (occurs : s.Occurs p i entry host k t) :
    J.Goes i (J.read entry) k t (t.step (s.interpreter host)) := by
  have run := occurs.comes.run
  have stands := occurs.stands recalls captures
  have starts := occurs.startsFrom recalls captures
  have timely := stands.timely carries.timed
  by_cases left : k < i.duration.toNatClampNeg
  · have hold : t.Holds i :=
      (Pulse.holds_iff_of_frame stands.frame (Or.inl carries.timed)).mpr fun _ => left
    obtain ⟨scratch, call⟩ :=
      carries.moves (h := t.state.2) (frameAt k) (progress (frameAt k) i.duration) starts
    rw [Pulse.step_hold run hold, Instruction.fraction, carries.timed, stands.frame]
    dsimp only
    rw [call]
    exact .moves left _
  · have ended : i.duration ≤ t.cursor.frame := by
      rw [stands.frame, ← Int32.not_lt, frameAt_lt]
      exact left
    obtain ⟨answer, scratch, call⟩ := carries.lands (h := t.state.2) starts
    rw [Pulse.step_finish run carries.timed ended, call]
    exact .lands (by omega) rfl (Cursor.advance_idle occurs.comes.sound.resting)

/-- The instruction interpolates as `J?` says, which may depend on the paths that the host has. -/
structure Immune (s : Steering κ α τ) (i : Instruction κ α)
    (J? : (Int32 → Option (Curve α)) → Option (Interpolation τ β α)) : Prop where
  /-- Wherever a run comes to it, that is a tick of an occurrence, or the end of one. -/
  occurs : ∀ {η : Type} {p} {host : Host α η} {t}, s.Comes p i host t →
    ∃ entry k, s.Occurs p i entry host k t
  /-- There it takes the value where it should be, from what the first tick has found. -/
  goes : ∀ {η : Type} {p} {host : Host α η} {entry k t J}, J? host.path? = some J →
    s.Occurs p i entry host k t → J.Goes i (J.read entry) k t (t.step (s.interpreter host))
  /-- In two runs with the same start the same is written, whatever else is different. -/
  agree : ∀ {η η' : Type} {p p'} {host : Host α η} {host' : Host α η'} {entry entry' k t t' J},
    J? host.path? = some J → J? host'.path? = some J → J.read entry = J.read entry' →
    s.Occurs p i entry host k t → s.Occurs p' i entry' host' k t' →
      ∃ v, J.Writes v t (t.step (s.interpreter host)) ∧
        J.Writes v t' (t'.step (s.interpreter host'))

theorem immune {J? : (Int32 → Option (Curve α)) → Option (Interpolation τ β α)}
    (recalls : s.Recalls) (captures : s.CapturesByKind)
    (carries : ∀ {η : Type} (host : Host α η) J, J? host.path? = some J → s.Carries host i J) :
    s.Immune i J? where
  occurs := Comes.occurs
  goes hJ occurs := occurs.goes recalls captures (carries _ _ hJ)
  agree := by
    intro η η' p p' host host' entry entry' k t t' J hJ hJ' same occurs occurs'
    have goes := occurs.goes recalls captures (carries host J hJ)
    have goes' := occurs'.goes recalls captures (carries host' J hJ')
    rw [← same] at goes'
    exact goes.agree goes'

end Steering

/-! ### What the kinds for bullets interpolate

The table and the handlers say the same, once the handler starts from the number that
the table starts from.  That it does is the one place where what is remembered comes in:
the kinds of the table are those that capture a number, and each captures the one it
changes.
-/

namespace Bullet

/-- An instruction that takes the speed along. -/
def speedAlong (along : α → Int32 → α → α) (final : α → α) : Interpolation (Motion α) α α where
  read m := m.speed
  write speed m := { m with speed }
  along
  final

/-- An instruction that takes the heading along. -/
def headingAlong (along : α → Int32 → α → α) (final : α → α) : Interpolation (Motion α) α α where
  read m := m.heading
  write heading m := { m with heading }
  along
  final

/-- On which side of the base a zigzag is, with so many ticks on each of them. -/
def zigzagSide (ticks frame : Int32) : α :=
  if (frame / max ticks 1) % 2 = 0 then 1.0 else -1.0

/-- The kinds for bullets that interpolate. -/
def interpolation? (i : Instruction Kind α) : Option (Interpolation (Motion α) α α) :=
  match i.kind with
  | .lerpSpeed => some (speedAlong (fun start _ t => Scalar.lerp start i.first t) fun _ => i.first)
  | .lerpAngle =>
    some (headingAlong (fun start _ t => Scalar.lerp start i.first t) fun _ => i.first)
  | .zigzag =>
    some (headingAlong (fun start frame _ => start + zigzagSide i.count frame * i.first) id)
  | _ => none

variable {host : Host α η} {i : Instruction Kind α} {J : Interpolation (Motion α) α α}
  {entry m : Motion α} {given : Option (Scratch α)}

theorem interpolation?_timed (hJ : interpolation? i = some J) : i.flow = .timed := by
  unfold interpolation? at hJ
  show i.kind.flow = .timed
  cases hkind : i.kind <;> simp only [hkind] at hJ <;> cases hJ <;> rfl

/-- What is captured of a number is what the handler takes for its start. -/
theorem startOr_of_startsFrom {read : Motion α → α}
    (captured : captured? i entry = some (.start (read entry)))
    (starts : steering.StartsFrom i entry given m) : startOr given (read m) = read entry := by
  rcases starts with ⟨rfl, rfl⟩ | kept
  · rfl
  · rw [kept _ captured]
    rfl

theorem tick_along (host : Host α η) (hJ : interpolation? i = some J)
    (starts : steering.StartsFrom i entry given m) (frame : Int32) (fraction : α) :
    ∃ left, tick host i frame fraction given m
      = .ok (.pending, left, J.write (J.along (J.read entry) frame fraction) m) := by
  unfold interpolation? at hJ
  cases hkind : i.kind <;> simp only [hkind] at hJ <;> cases hJ
  case lerpSpeed =>
    have hstart : startOr given m.speed = entry.speed :=
      startOr_of_startsFrom (by simp [captured?, hkind]) starts
    refine ⟨some (.start entry.speed), ?_⟩
    simp only [tick, hkind, hstart]
    rfl
  case lerpAngle | zigzag =>
    have hstart : startOr given m.heading = entry.heading :=
      startOr_of_startsFrom (by simp [captured?, hkind]) starts
    refine ⟨some (.start entry.heading), ?_⟩
    simp only [tick, hkind, hstart]
    rfl

theorem conclude_final (hJ : interpolation? i = some J)
    (starts : steering.StartsFrom i entry given m) :
    conclude i given m = J.write (J.final (J.read entry)) m := by
  unfold interpolation? at hJ
  cases hkind : i.kind <;> simp only [hkind] at hJ <;> cases hJ
  case lerpSpeed | lerpAngle =>
    simp only [conclude, hkind]
    rfl
  case zigzag =>
    rcases starts with ⟨rfl, rfl⟩ | kept
    · -- a span of no ticks leaves the heading that it has found
      simp only [conclude, hkind]
      rfl
    · rw [kept (.start entry.heading) (by simp [steering, captured?, hkind])]
      simp only [conclude, hkind]
      rfl

theorem carries (host : Host α η) (hJ : interpolation? i = some J) :
    steering.Carries host i J where
  timed := interpolation?_timed hJ
  moves := by
    intro entry m h given frame fraction starts
    obtain ⟨left, htick⟩ := tick_along host hJ starts frame fraction
    refine ⟨left, ?_⟩
    simp only [steering, interpreter, htick]
    rfl
  lands := by
    intro entry m h given starts
    exact ⟨.release, given, by rw [← conclude_final hJ starts]; rfl⟩

end Bullet

/-! ### What the kinds for enemies interpolate

The same for positions, with one kind that captures nothing because it does not start
anywhere: a path has a point for each fraction, whichever path it is.
-/

namespace Enemy

/-- An instruction that takes the enemy along. -/
def positionAlong (along : Vec2 α → Int32 → α → Vec2 α) (final : Vec2 α → Vec2 α) :
    Interpolation (Body α) (Vec2 α) α where
  read b := b.position
  write position b := { b with position }
  along
  final

/-- The kinds for enemies that interpolate; following a path does if there is one of that id. -/
def interpolation? (path? : Int32 → Option (Curve α)) (i : Instruction Kind α) :
    Option (Interpolation (Body α) (Vec2 α) α) :=
  match i.kind with
  | .moveTo => some (positionAlong (fun start _ t => start.lerp i.vector t) fun _ => i.vector)
  | .moveBy =>
    some (positionAlong (fun start _ t => start + i.vector * t) fun start => start + i.vector)
  | .oscillate =>
    some (positionAlong (fun start frame _ => start + i.vector * swing i.first frame) fun start =>
      start + i.vector * swing i.first i.duration)
  | .followPath =>
    (path? i.extra).map fun curve =>
      positionAlong (fun _ _ t => curve.pointAt t) fun _ => curve.pointAt 1.0
  | _ => none

variable {host : Host α η} {i : Instruction Kind α} {J : Interpolation (Body α) (Vec2 α) α}
  {path? : Int32 → Option (Curve α)} {entry b : Body α} {given : Option (Scratch α)}

theorem interpolation?_timed (hJ : interpolation? path? i = some J) : i.flow = .timed := by
  unfold interpolation? at hJ
  show i.kind.flow = .timed
  cases hkind : i.kind <;> simp only [hkind] at hJ <;> first | rfl | cases hJ

/-- What is captured of the position is what the handlers take for its start. -/
theorem originOr_of_startsFrom (captured : captured? i entry = some (.origin entry.position))
    (starts : steering.StartsFrom i entry given b) :
    originOr given b.position = entry.position := by
  rcases starts with ⟨rfl, rfl⟩ | kept
  · rfl
  · rw [kept _ captured]
    rfl

theorem tick_along (hJ : interpolation? host.path? i = some J)
    (starts : steering.StartsFrom i entry given b) (frame : Int32) (fraction : α) (h : η) :
    ∃ left, tick host i frame fraction given b h
      = .ok (left, J.write (J.along (J.read entry) frame fraction) b, h) := by
  unfold interpolation? at hJ
  cases hkind : i.kind <;> simp only [hkind] at hJ
  case moveTo | moveBy | oscillate =>
    cases hJ
    have hstart : originOr given b.position = entry.position :=
      originOr_of_startsFrom (by simp [captured?, hkind]) starts
    refine ⟨some (.origin entry.position), ?_⟩
    simp only [tick, hkind, hstart]
    rfl
  case followPath =>
    obtain ⟨curve, hcurve, rfl⟩ := Option.map_eq_some_iff.mp hJ
    refine ⟨given, ?_⟩
    simp only [tick, hkind, hcurve]
    rfl
  all_goals cases hJ

theorem conclude_final (hJ : interpolation? host.path? i = some J)
    (starts : steering.StartsFrom i entry given b) :
    conclude host i given b = J.write (J.final (J.read entry)) b := by
  unfold interpolation? at hJ
  cases hkind : i.kind <;> simp only [hkind] at hJ
  case moveTo | moveBy | oscillate =>
    cases hJ
    have hstart : originOr given b.position = entry.position :=
      originOr_of_startsFrom (by simp [captured?, hkind]) starts
    simp only [conclude, hkind, hstart]
    rfl
  case followPath =>
    obtain ⟨curve, hcurve, rfl⟩ := Option.map_eq_some_iff.mp hJ
    simp only [conclude, hkind, hcurve]
    rfl
  all_goals cases hJ

theorem carries (host : Host α η) (hJ : interpolation? host.path? i = some J) :
    steering.Carries host i J where
  timed := interpolation?_timed hJ
  moves := by
    intro entry b h given frame fraction starts
    obtain ⟨left, htick⟩ := tick_along hJ starts frame fraction h
    refine ⟨left, ?_⟩
    simp only [steering, interpreter, htick]
    rfl
  lands := by
    intro entry b h given starts
    exact ⟨.release, given, by rw [← conclude_final hJ starts]; rfl⟩

end Enemy

/-! ### Both -/

/--
**Interpolations are immune and land exactly.**  Let an instruction for bullets change
its speed or heading evenly or swing it, or let one for enemies move between two points,
swing around one or follow a path that there is, of whatever shape.  Whatever the program,
the hosts and what the owner does to the actor between the ticks, the value that is written
after `k` ticks of an occurrence is a function of the operands, of `k` and of the value that
the first of these ticks has found, and after the last one it is exactly the final one of
the table.  A span of no ticks writes the final value at once, and every pass of a loop is an
occurrence of its own.
-/
theorem interpolations_immune :
    (∀ i : Instruction Bullet.Kind α,
      Bullet.steering.Immune i fun _ => Bullet.interpolation? i) ∧
      ∀ i : Instruction Enemy.Kind α,
        Enemy.steering.Immune i fun path? => Enemy.interpolation? path? i :=
  ⟨fun _ => Steering.immune Bullet.recalls Bullet.capturesByKind fun host _ => Bullet.carries host,
    fun _ => Steering.immune Enemy.recalls Enemy.capturesByKind fun host _ => Enemy.carries host⟩

/-- An enemy that moves to the middle of the upper edge in one tick. -/
def leaper : Program Enemy.Kind Float32 :=
  .ofInstructions [Enemy.Command.moveTo ⟨192.0, 0.0⟩ 1]

theorem interpolations_immune_interfered :
    let host := Recorder.host ⟨.empty, fun _ _ => none, fun _ => none, none⟩ true
    let weave := Bullet.Command.zigzag (30.0 : Float32) 2 4
    let leap := Enemy.Command.moveTo (⟨192.0, 0.0⟩ : Vec2 Float32) 1
    (∃ entry t c state, Bullet.steering.Occurs weaver weave entry host 1 t ∧
      entry.heading = 90.0 ∧ t.state.1.heading = 0.0 ∧
      t.step (Bullet.interpreter host) = .ok (.done true c state) ∧
      state.1.heading = 90.0 + 1.0 * 30.0) ∧
    ∃ entry t t', Enemy.steering.Occurs leaper leap entry host 1 t ∧
      entry.position = ⟨192.0, 32.0⟩ ∧ t.state.1.position = .zero ∧
      t.step (Enemy.interpreter host) = .ok (.next t') ∧ t'.state.1.position = ⟨192.0, 0.0⟩ := by
  intro host weave leap
  let r := Recorder.ofChance (.scripted #[] 0)
  obtain ⟨bullets, enemies⟩ := interpolations_immune (α := Float32)
  constructor
  · -- one tick of the zigzag, after which the owner turns the bullet
    let m : Bullet.Motion Float32 := .straight .zero 2.0 90.0
    let t : Pulse Bullet.Kind Float32 _ := .ofCursor (.ofProgram weaver) (m, r)
    have comes : Bullet.steering.Comes weaver weave host t := ⟨.start, rfl, .start, rfl, by decide⟩
    obtain ⟨c, m', r', hu, hstep, unfinished⟩ : ∃ c m' r',
        Bullet.update host (.ofProgram weaver) m r = .ok (true, c, m', r') ∧
          t.step (Bullet.interpreter host) = .ok (.done true c (m', r')) ∧ c.finished = false :=
      ⟨_, _, _, rfl, rfl, rfl⟩
    let x : Bullet.Motion Float32 := { m' with heading := 0.0 }
    have comes' : Bullet.steering.Comes weaver weave host (.ofCursor c (x, r')) :=
      ⟨.tick .start hu, unfinished, .start, comes.run.again hstep _⟩
    have occurs : Bullet.steering.Occurs weaver weave m host 1 (.ofCursor c (x, r')) :=
      .again (.enter comes rfl rfl) hstep comes'
    have goes := (bullets weave).goes rfl occurs
    generalize hstep' : Pulse.step (Bullet.steering.interpreter host) _ = o at goes
    cases goes with
    | moves _ c' =>
        have hside : (Bullet.zigzagSide 2 (frameAt 1) : Float32) = 1.0 := if_pos (by decide)
        refine ⟨m, _, c', _, occurs, rfl, rfl, hstep', ?_⟩
        show (90.0 : Float32) + Bullet.zigzagSide 2 (frameAt 1) * 30.0 = _
        rw [hside]
    | lands ended _ _ => exact absurd ended (by decide)
  · -- the only tick of the leap, after which the owner puts the enemy into a corner
    let b : Enemy.Body Float32 := .ofPosition ⟨192.0, 32.0⟩
    let t : Pulse Enemy.Kind Float32 _ := .ofCursor (.ofProgram leaper) (b, r)
    have comes : Enemy.steering.Comes leaper leap host t := ⟨.start, rfl, .start, rfl, by decide⟩
    obtain ⟨c, b', r', hu, hstep, unfinished⟩ : ∃ c b' r',
        Enemy.update host (.ofProgram leaper) b r = .ok (true, c, b', r') ∧
          t.step (Enemy.interpreter host) = .ok (.done true c (b', r')) ∧ c.finished = false :=
      ⟨_, _, _, rfl, rfl, rfl⟩
    let x : Enemy.Body Float32 := { b' with position := .zero }
    have comes' : Enemy.steering.Comes leaper leap host (.ofCursor c (x, r')) :=
      ⟨.tick .start hu, unfinished, .start, comes.run.again hstep _⟩
    have occurs : Enemy.steering.Occurs leaper leap b host 1 (.ofCursor c (x, r')) :=
      .again (.enter comes rfl rfl) hstep comes'
    have goes := (enemies leap).goes rfl occurs
    generalize hlast : Pulse.step (Enemy.steering.interpreter host) _ = o at goes
    cases goes with
    | moves left _ => exact absurd left (by decide)
    | @lands t' _ written _ => exact ⟨b, _, t', occurs, rfl, rfl, hlast, by rw [written]; rfl⟩

end Barrage
