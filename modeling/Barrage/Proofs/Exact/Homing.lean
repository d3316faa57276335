/-
Homing, with exact numbers.

`Angle.wrap` brings a heading into one turn about zero, from -180, which it never returns,
up to 180, and `Angle.turnTowards` turns by what it returns, cut off at the limit.  All of
homing is about the turn that is left to do, so this is what the lemmas follow.
`Angle.Remains r x r'` says that `r'` is left of a turn by `r` after `x` degrees of it.  One
turn leaves that much of what was left, because a turn that is cut short ends on the same
side; and what remains composes, so that `k` ticks of a bullet leave what one turn with `k`
times the limit would leave.

The owner may move the bullet between two ticks and may send another host along.  The
heading is what it has to leave alone, and the target has to be the same in every tick:
`Bullet.Chases` are the occurrences of which that is true.
-/
import Mathlib.Data.Sign.Basic
import Barrage.Proofs.Exact.Arithmetic
import Barrage.Angle
import Barrage.Proofs.Host.Occurrence
import Barrage.Proofs.Host.Record

namespace Barrage

open Exact

variable {K : Type} [Field K] [LinearOrder K] [IsStrictOrderedRing K] [FloorRing K] [Functions K]

namespace Angle

/-! ### The wrapped heading is the only one of its range

Wrapping is a remainder and two corrections.  Each of the three moves by whole turns and
brings the number into a smaller range, until the range has one number of each heading.
-/

theorem rem_turns (d : K) : ∃ turns : ℤ, Scalar.rem d 360.0 = d - turns • 360 ∧
    -360 < Scalar.rem d 360.0 ∧ Scalar.rem d 360.0 < 360 := by
  have turn : (360.0 : K) = 360 := by norm_num
  rw [turn]
  have left : Scalar.rem d 360 = 360 * (d / 360 - whole (d / 360)) := by
    show d - 360 * (whole (d / 360) : K) = _
    ring
  obtain ⟨below, above⟩ := abs_lt.mp (abs_sub_whole_lt (d / 360))
  refine ⟨whole (d / 360), ?_, ?_, ?_⟩
  · rw [left, zsmul_eq_mul]
    ring
  · rw [left]
    linarith
  · rw [left]
    linarith

theorem wrapBelow_turns (d : K) : ∃ turns : ℤ, Scalar.wrapBelow 360.0 d = d - turns • 360 ∧
    0 ≤ Scalar.wrapBelow 360.0 d ∧ Scalar.wrapBelow 360.0 d < 360 := by
  obtain ⟨turns, hturns, below, above⟩ := rem_turns d
  have turn : Scalar.abs (360.0 : K) = 360 := by
    show |(360.0 : K)| = 360
    norm_num
  have zero : (0.0 : K) = 0 := by norm_num
  rw [Scalar.wrapBelow, turn, zero]
  split
  · rename_i negative
    refine ⟨turns - 1, ?_, by linarith, by linarith⟩
    rw [hturns, sub_zsmul, one_zsmul]
    ring
  · rename_i positive
    exact ⟨turns, hturns, not_lt.mp positive, above⟩

theorem wrap_turns (d : K) : ∃ turns : ℤ, wrap d = d - turns • 360 ∧ -180 < wrap d ∧ wrap d ≤ 180 := by
  obtain ⟨turns, hturns, below, above⟩ := wrapBelow_turns d
  have half : (180.0 : K) = 180 := by norm_num
  have turn : (360.0 : K) = 360 := by norm_num
  rw [wrap]
  split
  · rename_i far
    rw [half] at far
    refine ⟨turns + 1, ?_, ?_, ?_⟩
    · rw [hturns, turn, add_zsmul, one_zsmul]
      ring
    · linarith
    · linarith
  · rename_i near
    rw [half, not_lt] at near
    exact ⟨turns, hturns, by linarith, near⟩

theorem wrap_modEq (d : K) : wrap d ≡ d [PMOD 360] := by
  obtain ⟨turns, hturns, -⟩ := wrap_turns d
  rw [AddCommGroup.modEq_iff_zsmul']
  refine ⟨turns, ?_⟩
  rw [hturns]
  exact sub_sub_cancel _ _

/-- The wrapped heading is the one number of its range that is the same heading. -/
theorem wrap_eq_iff (d x : K) : wrap d = x ↔ -180 < x ∧ x ≤ 180 ∧ x ≡ d [PMOD 360] := by
  obtain ⟨-, -, low, high⟩ := wrap_turns d
  constructor
  · rintro rfl
    exact ⟨low, high, wrap_modEq d⟩
  · rintro ⟨low', high', same⟩
    refine eq_of_modEq ((wrap_modEq d).trans same.symm) ?_
    rw [abs_lt]
    constructor <;> linarith

theorem wrap_eq_zero_iff {d : K} : wrap d = 0 ↔ d ≡ 0 [PMOD 360] := by
  rw [wrap_eq_iff]
  constructor
  · rintro ⟨-, -, same⟩
    exact same.symm
  · intro same
    exact ⟨by norm_num, by norm_num, same.symm⟩

/-! ### What is left of a turn composes

A turn that is cut off at the limit leaves a turn on the same side, which is already
wrapped.  This is why wrapping again in the next tick changes nothing, and why the limits
of the ticks add up.
-/

/-- Of a turn by `r`, what is left after `x` degrees of it is `r'`. -/
structure Remains (r x r' : K) : Prop where
  /-- It goes on to the same side. -/
  side : r' = 0 ∨ SignType.sign r' = SignType.sign r
  size : |r'| = max 0 (|r| - x)

theorem Remains.refl (r : K) : Remains r 0 r :=
  ⟨.inr rfl, by rw [sub_zero, max_eq_right (abs_nonneg r)]⟩

theorem Remains.trans {r r' r'' x y : K} (first : Remains r x r') (next : Remains r' y r'')
    (forward : 0 ≤ y) : Remains r (x + y) r'' := by
  constructor
  · rcases next.side with done | same
    · exact .inl done
    · rcases first.side with done | same'
      · rw [done, sign_zero, sign_eq_zero_iff] at same
        exact .inl same
      · exact .inr (same.trans same')
  · rw [next.size, first.size]
    by_cases more : x ≤ |r|
    · rw [max_eq_right (sub_nonneg.mpr more), sub_sub]
    · rw [not_le] at more
      have done : max 0 (|r| - x) = 0 := max_eq_left (by linarith)
      rw [done, max_eq_left (by linarith), max_eq_left (by linarith)]

theorem Remains.done {r x r' : K} (h : Remains r x r') (enough : |r| ≤ x) : r' = 0 := by
  have size := h.size
  rw [max_eq_left (by linarith)] at size
  exact abs_eq_zero.mp size

omit [IsStrictOrderedRing K] in
theorem clamp_cases {m : K} (r : K) :
    r < -m ∧ Scalar.clamp (-m) m r = -m ∨ -m ≤ r ∧ m < r ∧ Scalar.clamp (-m) m r = m ∨
      -m ≤ r ∧ r ≤ m ∧ Scalar.clamp (-m) m r = r := by
  unfold Scalar.clamp
  by_cases below : r < -m
  · exact .inl ⟨below, if_pos below⟩
  · rw [if_neg below]
    rw [not_lt] at below
    by_cases above : m < r
    · exact .inr (.inl ⟨below, above, if_pos above⟩)
    · exact .inr (.inr ⟨below, not_lt.mp above, if_neg above⟩)

theorem remains_clamp {m : K} (r : K) (hm : 0 ≤ m) : Remains r m (r - Scalar.clamp (-m) m r) := by
  rcases clamp_cases (m := m) r with ⟨below, turn⟩ | ⟨-, above, turn⟩ | ⟨below, above, turn⟩
  · have negative : r < 0 := by linarith
    have negative' : r - -m < 0 := by linarith
    rw [turn]
    constructor
    · exact .inr ((sign_neg negative').trans (sign_neg negative).symm)
    · rw [abs_of_neg negative, abs_of_neg negative', max_eq_right (by linarith)]
      ring
  · have positive : 0 < r := by linarith
    have positive' : 0 < r - m := by linarith
    rw [turn]
    constructor
    · exact .inr ((sign_pos positive').trans (sign_pos positive).symm)
    · rw [abs_of_pos positive, abs_of_pos positive', max_eq_right positive'.le]
  · have short : |r| ≤ m := abs_le.mpr ⟨below, above⟩
    rw [turn, sub_self]
    exact ⟨.inl rfl, by rw [abs_zero, max_eq_left (by linarith)]⟩

theorem abs_clamp_le {m : K} (r : K) (hm : 0 ≤ m) : |Scalar.clamp (-m) m r| ≤ m := by
  rcases clamp_cases (m := m) r with ⟨-, turn⟩ | ⟨-, -, turn⟩ | ⟨below, above, turn⟩
  · rw [turn, abs_neg, abs_of_nonneg hm]
  · rw [turn, abs_of_nonneg hm]
  · rw [turn]
    exact abs_le.mpr ⟨below, above⟩

/-- A turn that is not finished leaves the shorter way round. -/
theorem wrap_sub_clamp {m : K} (d : K) (hm : 0 ≤ m) :
    wrap (d - Scalar.clamp (-m) m (wrap d)) = wrap d - Scalar.clamp (-m) m (wrap d) := by
  obtain ⟨-, -, low, high⟩ := wrap_turns d
  rw [wrap_eq_iff]
  refine ⟨?_, ?_, (wrap_modEq d).sub_right _⟩
  · rcases clamp_cases (m := m) (wrap d) with ⟨-, turn⟩ | ⟨-, above, turn⟩ | ⟨-, -, turn⟩ <;>
      rw [turn] <;> linarith
  · rcases clamp_cases (m := m) (wrap d) with ⟨below, turn⟩ | ⟨-, -, turn⟩ | ⟨-, -, turn⟩ <;>
      rw [turn] <;> linarith

/-- Turning returns a heading that is nearer to the target, by the whole limit unless it gets there. -/
theorem turnTowards_remains (current target maxTurn : K) : ∃ turned,
    turnTowards current target maxTurn = .ok turned ∧ |turned - current| ≤ |maxTurn| ∧
      Remains (wrap (target - current)) |maxTurn| (wrap (target - turned)) := by
  have size : (0 : K) ≤ |maxTurn| := abs_nonneg maxTurn
  have limits : -|maxTurn| ≤ |maxTurn| := by linarith
  refine ⟨_, if_pos limits, ?_, ?_⟩
  · rw [add_sub_cancel_left]
    exact abs_clamp_le _ size
  · rw [← sub_sub]
    show Remains _ _ (wrap (target - current - Scalar.clamp (-|maxTurn|) |maxTurn| _))
    rw [wrap_sub_clamp _ size]
    exact remains_clamp _ size

end Angle

/-! ### Ticks of homing add up to one turn

`Chases` is an occurrence with two conditions on the owner: the heading is left alone
and the player is in the same direction in each tick.  Everything else it may do, and
what is left of the turn goes from one tick to the next by `Remains.trans`.
-/

namespace Bullet

section Chase

variable {α : Type} [Scalar α]

/-- After `k` ticks of one occurrence of `i` the dispatch loop comes to it once more.  The first of
them has found the heading `start`, each has seen the player in the direction `target`, and the
owner has left the heading alone in between. -/
inductive Chases (p : Program Kind α) (i : Instruction Kind α) (target start : α) :
    ∀ {η : Type}, Host α η → ℕ → Pulse Kind α (Motion α × η) → Prop
  | enter {η : Type} {host : Host α η} {t : Pulse Kind α (Motion α × η)}
      (comes : steering.Comes p i host t) (first : t.cursor.frame = 0)
      (found : t.state.1.heading = start) : Chases p i target start host 0 t
  | again {η η' : Type} {host : Host α η} {host' : Host α η'} {k : ℕ}
      {t : Pulse Kind α (Motion α × η)} {c : Cursor Kind α} {m x : Motion α} {h₁ : η} {h : η'}
      (before : Chases p i target start host k t)
      (sees : host.headingToPlayer? t.state.1.position = some target)
      (hstep : t.step (interpreter host) = .ok (.done true c (m, h₁)))
      (left : x.heading = m.heading) : Chases p i target start host' (k + 1) (.ofCursor c (x, h))

variable {p : Program Kind α} {i : Instruction Kind α} {target start : α} {η : Type}
  {host : Host α η} {k : ℕ} {t : Pulse Kind α (Motion α × η)}

theorem Chases.occurs (chases : Chases p i target start host k t) :
    ∃ entry, steering.Occurs p i entry host k t := by
  induction chases with
  | enter comes first found => exact ⟨_, .enter comes first rfl⟩
  | again _ _ hstep _ ih =>
      obtain ⟨entry, occurs⟩ := ih
      exact ⟨entry, .again occurs hstep (occurs.comes.again answers hstep _ _ _)⟩

/-- A tick of homing turns the bullet towards the player that it sees, and does nothing else. -/
theorem tick_home (homes : i.kind = .home) {m : Motion α}
    (sees : host.headingToPlayer? m.position = some target) (frame : Int32) (fraction : α)
    (given : Option (Scratch α)) {heading : α}
    (turns : Angle.turnTowards m.heading target i.first = .ok heading) :
    tick host i frame fraction given m = .ok (.pending, given, { m with heading }) := by
  simp only [tick, homes, sees, turns]
  rfl

theorem Chases.holds_iff (homes : i.kind = .home) (chases : Chases p i target start host k t) :
    t.Holds i ↔ k < i.duration.toNatClampNeg := by
  obtain ⟨entry, occurs⟩ := chases.occurs
  have timed : i.flow = .timed := by
    show i.kind.flow = .timed
    rw [homes]
    rfl
  have frame := (occurs.stands recalls capturesByKind).frame
  rw [Pulse.holds_iff_of_frame frame (Or.inl timed)]
  exact ⟨fun more => more timed, fun more _ => more⟩

/-- So does a tick of the script, unless the span is over. -/
theorem Chases.step (homes : i.kind = .home) (chases : Chases p i target start host k t)
    (more : k < i.duration.toNatClampNeg)
    (sees : host.headingToPlayer? t.state.1.position = some target) {heading : α}
    (turns : Angle.turnTowards t.state.1.heading target i.first = .ok heading) :
    ∃ c, t.step (interpreter host) =
      .ok (.done true c ({ t.state.1 with heading }, t.state.2)) := by
  obtain ⟨entry, occurs⟩ := chases.occurs
  rw [Pulse.step_hold occurs.comes.run ((chases.holds_iff homes).mpr more)]
  simp only [interpreter, tick_home homes sees _ _ _ turns]
  exact ⟨_, rfl⟩

end Chase

variable {p : Program Kind K} {i : Instruction Kind K} {target start : K} {η : Type}
  {host : Host K η} {k : ℕ} {t : Pulse Kind K (Motion K × η)}

/-- One tick takes the limit off the turn that is left. -/
theorem Chases.step_remains (homes : i.kind = .home) (chases : Chases p i target start host k t)
    (more : k < i.duration.toNatClampNeg)
    (sees : host.headingToPlayer? t.state.1.position = some target) : ∃ c heading,
    t.step (interpreter host) = .ok (.done true c ({ t.state.1 with heading }, t.state.2)) ∧
      Angle.Remains (Angle.wrap (target - t.state.1.heading)) |i.first|
        (Angle.wrap (target - heading)) := by
  obtain ⟨heading, turns, -, remains⟩ :=
    Angle.turnTowards_remains t.state.1.heading target i.first
  obtain ⟨c, hstep⟩ := chases.step homes more sees turns
  exact ⟨c, heading, hstep, remains⟩

theorem Chases.remains (homes : i.kind = .home) (chases : Chases p i target start host k t) :
    Angle.Remains (Angle.wrap (target - start)) (k * |i.first|)
      (Angle.wrap (target - t.state.1.heading)) := by
  induction chases with
  | enter _ _ found =>
      rw [found, Nat.cast_zero, zero_mul]
      exact .refl _
  | @again _ _ host _ k t c m x h₁ h before sees hstep left ih =>
      obtain ⟨entry, occurs⟩ := before.occurs
      have more := (before.holds_iff homes).mp (Pulse.suspended_of_step occurs.comes.run hstep).1
      obtain ⟨c', heading, hstep', next⟩ := before.step_remains homes more sees
      rw [hstep'] at hstep
      cases hstep
      have all := ih.trans next (abs_nonneg _)
      show Angle.Remains _ _ (Angle.wrap (target - x.heading))
      rw [left, Nat.cast_succ, add_mul, one_mul]
      exact all

/-- What holds of a bullet that homes in on a target, by no more than the limit in each tick. -/
structure HomesIn (i : Instruction Kind K) (target start : K) (host : Host K η) (k : ℕ)
    (t : Pulse Kind K (Motion K × η)) : Prop where
  /-- So many ticks have taken so many times the limit off the turn. -/
  remains : Angle.Remains (Angle.wrap (target - start)) (k * |i.first|)
    (Angle.wrap (target - t.state.1.heading))
  /-- If it was done before, the bullet has stayed on its target. -/
  aligned : ∀ j ≤ k, |Angle.wrap (target - start)| ≤ j * |i.first| →
    t.state.1.heading ≡ target [PMOD 360]
  /-- If the player is seen again, there is one tick more. -/
  step : k < i.duration.toNatClampNeg →
    host.headingToPlayer? t.state.1.position = some target → ∃ c heading,
      t.step (interpreter host) = .ok (.done true c ({ t.state.1 with heading }, t.state.2)) ∧
        Angle.Remains (Angle.wrap (target - start)) ((k + 1 : ℕ) * |i.first|)
          (Angle.wrap (target - heading)) ∧
        (t.state.1.heading ≡ target [PMOD 360] → heading ≡ target [PMOD 360])

end Bullet

theorem Angle.wrap_sub_eq_zero_iff {a b : K} : wrap (b - a) = 0 ↔ a ≡ b [PMOD 360] := by
  rw [wrap_eq_zero_iff, AddCommGroup.sub_modEq_zero, AddCommGroup.modEq_comm]

/--
**Homing turns the shorter way and does not overshoot.**  The wrapped heading is the one
number above -180 and up to 180 that is the same heading.  A turn towards a target is by
at most the limit, in either direction; what is left to turn is then less by the limit, or
nothing, and to the same side.  So after `k` ticks of a bullet that homes in on a target
the turn is less by `k` times the limit, or there is none left, and then there is none
any more.
-/
theorem homing_closesIn :
    (∀ d x : K, Angle.wrap d = x ↔ -180 < x ∧ x ≤ 180 ∧ x ≡ d [PMOD 360]) ∧
    (∀ current target maxTurn : K, ∃ turned,
      Angle.turnTowards current target maxTurn = .ok turned ∧ |turned - current| ≤ |maxTurn| ∧
        Angle.Remains (Angle.wrap (target - current)) |maxTurn| (Angle.wrap (target - turned))) ∧
    ∀ (p : Program Bullet.Kind K) (i : Instruction Bullet.Kind K), i.kind = .home →
      ∀ (target start : K) {η : Type} (host : Host K η) k t,
        Bullet.Chases p i target start host k t → Bullet.HomesIn i target start host k t := by
  refine ⟨Angle.wrap_eq_iff, Angle.turnTowards_remains, ?_⟩
  intro p i homes target start η host k t chases
  have remains := chases.remains homes
  refine ⟨remains, ?_, ?_⟩
  · intro j hj done
    have more : (j : K) * |i.first| ≤ k * |i.first| :=
      mul_le_mul_of_nonneg_right (Nat.cast_le.mpr hj) (abs_nonneg _)
    rw [← Angle.wrap_sub_eq_zero_iff]
    exact remains.done (done.trans more)
  · intro more sees
    obtain ⟨c, heading, hstep, next⟩ := chases.step_remains homes more sees
    refine ⟨c, heading, hstep, ?_, ?_⟩
    · rw [Nat.cast_succ, add_mul, one_mul]
      exact remains.trans next (abs_nonneg _)
    · intro aligned
      rw [← Angle.wrap_sub_eq_zero_iff] at aligned ⊢
      refine next.done ?_
      rw [aligned, abs_zero]
      exact abs_nonneg _

/-- A host with nothing on the field but a player, who stands still. -/
def lookout (player : Vec2 K) : Host K Unit :=
  .still { Setting.bare K with player := some player } fun low _ => low

theorem lookout_sees : (lookout (⟨1, 0⟩ : Vec2 ℝ)).headingToPlayer? .zero = some 0 := by
  have away : (⟨1, 0⟩ - .zero : Vec2 ℝ) = ⟨1, 0⟩ := by
    show (⟨1 - 0.0, 0 - 0.0⟩ : Vec2 ℝ) = ⟨1, 0⟩
    norm_num
  have apart : Vec2.isZero (⟨1, 0⟩ : Vec2 ℝ) = false := by
    show (decide ((1 : ℝ) = 0.0) && decide ((0 : ℝ) = 0.0)) = false
    norm_num
  have along : Complex.arg ⟨1, 0⟩ = 0 := Complex.arg_one
  show some (Angle.headingOf (⟨1, 0⟩ - .zero : Vec2 ℝ)) = some 0
  rw [away, Angle.headingOf, if_neg (by rw [apart]; decide)]
  show some (Complex.arg ⟨1, 0⟩ * 57.29578) = some 0
  rw [along, zero_mul]

/-- A bullet that turns by 30 degrees at most, for two ticks. -/
noncomputable def seeker : Program Bullet.Kind ℝ :=
  .ofInstructions [Bullet.Command.home (-30) 2]

theorem homing_closesIn_behind :
    let home := Bullet.Command.home (-30 : ℝ) 2
    let host := lookout (⟨1, 0⟩ : Vec2 ℝ)
    ∃ t c heading, Bullet.Chases seeker home 0 190 host 1 t ∧
      |Angle.wrap (0 - t.state.1.heading)| = 140 ∧
      t.step (Bullet.interpreter host) = .ok (.done true c ({ t.state.1 with heading }, ())) ∧
      |Angle.wrap (0 - heading)| = 110 := by
  intro home host
  have sees : host.headingToPlayer? .zero = some 0 := lookout_sees
  have behind : |Angle.wrap (0 - 190 : ℝ)| = 170 := by
    rw [(Angle.wrap_eq_iff (0 - 190) 170).mpr ⟨by norm_num, by norm_num, ?_⟩]
    · norm_num
    · rw [AddCommGroup.modEq_iff_zsmul']
      exact ⟨-1, by norm_num⟩
  have turn : |home.first| = 30 := by
    show |(-30 : ℝ)| = 30
    norm_num
  let m : Bullet.Motion ℝ := .straight .zero 2 190
  let t : Pulse Bullet.Kind ℝ _ := .ofCursor (.ofProgram seeker) (m, ())
  have comes : Bullet.steering.Comes seeker home host t := ⟨.start, rfl, .start, rfl, by decide⟩
  have enters : Bullet.Chases seeker home 0 190 host 0 t := .enter comes rfl rfl
  have homes := homing_closesIn.2.2 seeker home rfl 0 190 host
  obtain ⟨c, heading, hstep, remains, -⟩ := (homes 0 t enters).step (by decide) sees
  have next : Bullet.Chases seeker home 0 190 host 1 (.ofCursor c ({ m with heading }, ())) :=
    .again enters sees hstep rfl
  obtain ⟨c', heading', hstep', remains', -⟩ := (homes 1 _ next).step (by decide) sees
  refine ⟨_, c', heading', next, ?_, hstep', ?_⟩
  · rw [(homes 1 _ next).remains.size, behind, turn]
    norm_num
  · rw [remains'.size, behind, turn]
    norm_num

end Barrage
