/-
The region of a random walk, with exact numbers.

An enemy walks from where a leg has begun to where it leads, and never further, since the
leg is not over.  Both ends are in the region around the anchor: the first leg begins at
the anchor itself, each of the others where the one before has led, and a target is drawn
from the region.  As the region is convex, nothing of the leg is outside.

All of this is about the leg that is remembered.  Where the owner has put the enemy in the
meantime does not come into it.

What a draw comes to is left open but for its bounds, and so are the functions of angles
but for the length of a direction.
-/
import Barrage.Proofs.Exact.Arithmetic
import Barrage.Proofs.Enemy.Walk

namespace Barrage

open Exact

variable {K η : Type} [Field K] [LinearOrder K] [IsStrictOrderedRing K] [FloorRing K]
  [Functions K] {host : Host K η}

/-! ### Draws

The bounds of the draws are all that is asked of a host, and they are asked of the
record of its calls.  So the regions can be shown for a trail of legs, which knows
nothing of hosts.
-/

/-- Every draw comes to a number, and it lies between the bounds. -/
def Host.DrawsBetween (host : Host K η) : Prop :=
  ∀ low high h, ∃ x h', host.uniform low high h = .ok (x, h') ∧ x ∈ Set.uIcc low high

/-- If the call is for a number, one between the bounds was the answer. -/
def HostCall.Between : HostCall K → Prop
  | uniform low high answer => answer ∈ Set.uIcc low high
  | _ => True

omit [IsStrictOrderedRing K] in
theorem Host.DrawsBetween.keeps (draws : host.DrawsBetween) :
    host.recorded.KeepsAside fun s => ∀ call ∈ s.2, call.Between where
  playSound name volume s hs := List.forall_mem_append.mpr ⟨hs, List.forall_mem_singleton.mpr trivial⟩
  uniform low high s x s' hs hdraw := by
    obtain ⟨y, h, hy, between⟩ := draws low high s.1
    obtain ⟨⟨z, h₁⟩, hz, hdone⟩ := bind_eq_ok.mp hdraw
    cases hy.symm.trans hz
    cases hdone
    exact List.forall_mem_append.mpr ⟨hs, List.forall_mem_singleton.mpr between⟩
  shuffle items s hs := List.forall_mem_append.mpr ⟨hs, List.forall_mem_singleton.mpr trivial⟩

/-- Directions have length one. -/
def Angle.UnitDirections (K : Type) [Field K] [LinearOrder K] [FloorRing K] [Functions K] : Prop :=
  ∀ degrees : K, (direction degrees).x ^ 2 + (direction degrees).y ^ 2 = 1

theorem Angle.unitDirections_real : UnitDirections ℝ :=
  fun degrees => Real.cos_sq_add_sin_sq (Scalar.toRadians degrees)

namespace Enemy

variable {i : Instruction Kind K} {anchor departure target p q : Vec2 K} {span : Int32} {t : K}
  {drawn calls : List (HostCall K)} {leg : Leg K} {k : ℕ}

/-! ### Regions are convex

A disc and a box with the anchor in the middle.  The operands may be negative, so it is
their absolute value that counts.
-/

/-- The point is in the region of the walk around its anchor: a disc for one kind, a box for the
other. -/
structure InRegion (i : Instruction Kind K) (anchor q : Vec2 K) : Prop where
  disc : i.kind = .wander → (q.x - anchor.x) ^ 2 + (q.y - anchor.y) ^ 2 ≤ |i.first| ^ 2
  box : i.kind = .patrol →
    |q.x - anchor.x| ≤ |i.vector.x| ∧ |q.y - anchor.y| ≤ |i.vector.y|

theorem inRegion_anchor (i : Instruction Kind K) (anchor : Vec2 K) : InRegion i anchor anchor := by
  constructor
  · intro _
    rw [sub_self, sub_self, zero_pow two_ne_zero, add_zero]
    exact sq_nonneg _
  · intro _
    rw [sub_self, sub_self, abs_zero]
    exact ⟨abs_nonneg _, abs_nonneg _⟩

omit [IsStrictOrderedRing K] in
theorem lerp_x_sub (p q anchor : Vec2 K) (t : K) :
    (p.lerp q t).x - anchor.x = (p.x - anchor.x) * (1 - t) + (q.x - anchor.x) * t := by
  have one : (1.0 : K) = 1 := by norm_num
  show p.x * (1.0 - t) + q.x * t - anchor.x = _
  rw [one]
  ring

omit [IsStrictOrderedRing K] in
theorem lerp_y_sub (p q anchor : Vec2 K) (t : K) :
    (p.lerp q t).y - anchor.y = (p.y - anchor.y) * (1 - t) + (q.y - anchor.y) * t := by
  have one : (1.0 : K) = 1 := by norm_num
  show p.y * (1.0 - t) + q.y * t - anchor.y = _
  rw [one]
  ring

/-- The region is convex. -/
theorem InRegion.lerp (hp : InRegion i anchor p) (hq : InRegion i anchor q) (low : 0 ≤ t)
    (high : t ≤ 1) : InRegion i anchor (p.lerp q t) := by
  constructor
  · intro kind
    rw [lerp_x_sub, lerp_y_sub]
    exact sq_mix_le (hp.disc kind) (hq.disc kind) low high
  · intro kind
    rw [lerp_x_sub, lerp_y_sub]
    exact ⟨abs_mix_le (hp.box kind).1 (hq.box kind).1 low high,
      abs_mix_le (hp.box kind).2 (hq.box kind).2 low high⟩

/-! ### Both ends of every leg are in the region

By induction on the trail.  A leg departs from where the one before has led, not from
where the enemy is, and this is why the owner cannot bring a leg out of the region.
-/

/-- What is drawn for a target is a point of the region. -/
theorem Picks.inRegion (unit : Angle.UnitDirections K)
    (picks : Picks i anchor departure drawn target span) (fair : ∀ call ∈ drawn, call.Between) :
    InRegion i anchor target := by
  cases picks with
  | near kind heading distance =>
      refine ⟨fun _ => ?_, fun patrols => by cases kind.symm.trans patrols⟩
      obtain ⟨-, fair⟩ := List.forall_mem_cons.mp fair
      have fair := List.forall_mem_singleton.mp fair
      have between : distance ∈ Set.uIcc (0.0 : K) |i.first| := fair
      have zero : (0.0 : K) = 0 := by norm_num
      rw [zero, Set.uIcc_of_le (abs_nonneg i.first)] at between
      obtain ⟨low, high⟩ := between
      show (anchor.x + (Angle.direction heading).x * distance - anchor.x) ^ 2 +
        (anchor.y + (Angle.direction heading).y * distance - anchor.y) ^ 2 ≤ _
      calc _ = ((Angle.direction heading).x ^ 2 + (Angle.direction heading).y ^ 2) * distance ^ 2 := by
            ring
        _ = distance ^ 2 := by rw [unit, one_mul]
        _ ≤ |i.first| ^ 2 := pow_le_pow_left₀ low high 2
  | inBox kind x y =>
      refine ⟨fun wanders => (by cases kind.symm.trans wanders), fun _ => ?_⟩
      obtain ⟨fairX, fair⟩ := List.forall_mem_cons.mp fair
      have fairY := List.forall_mem_singleton.mp fair
      have hx : |x| ≤ |i.vector.x| := abs_le_of_mem_uIcc fairX
      have hy : |y| ≤ |i.vector.y| := abs_le_of_mem_uIcc fairY
      show |anchor.x + x - anchor.x| ≤ _ ∧ |anchor.y + y - anchor.y| ≤ _
      rw [add_sub_cancel_left, add_sub_cancel_left]
      exact ⟨hx, hy⟩

/-- Both ends of every leg are points of the region. -/
theorem Trail.inRegion (unit : Angle.UnitDirections K) (trail : Trail i anchor k calls leg)
    (fair : ∀ call ∈ calls, call.Between) :
    InRegion i anchor leg.departure ∧ InRegion i anchor leg.target := by
  induction trail with
  | first picks => exact ⟨inRegion_anchor i anchor, picks.inRegion unit fair⟩
  | tick before goes ih =>
      obtain ⟨fair, fair'⟩ := List.forall_mem_append.mp fair
      obtain ⟨departure, target⟩ := ih fair
      cases goes with
      | along _ => exact ⟨departure, target⟩
      | turn _ picks =>
          rw [before.onLeg.anchor] at picks
          exact ⟨target, picks.inRegion unit fair'⟩

/-- A tick takes the enemy on, but not beyond the end of its leg. -/
theorem OnLeg.fraction_mem (on : OnLeg anchor leg) :
    0 ≤ Scalar.atMostOne (Scalar.ofInt32 (leg.timer + 1) / Scalar.ofInt32 leg.span : K) ∧
      Scalar.atMostOne (Scalar.ofInt32 (leg.timer + 1) / Scalar.ofInt32 leg.span : K) ≤ 1 := by
  have timer := Int32.le_iff_toInt_le.mp on.timer
  have span := Int32.le_iff_toInt_le.mp on.span
  rw [Int32.toInt_zero] at timer
  rw [Int32.toInt_one] at span
  have counted : (0 : K) ≤ Scalar.ofInt32 (leg.timer + 1) := by
    show (0 : K) ≤ ((leg.timer + 1).toInt : K)
    rw [on.toInt_next]
    exact_mod_cast (by omega : 0 ≤ leg.timer.toInt + 1)
  have whole : (0 : K) ≤ Scalar.ofInt32 leg.span := by
    show (0 : K) ≤ (leg.span.toInt : K)
    exact_mod_cast (by omega : 0 ≤ leg.span.toInt)
  have one : (1.0 : K) = 1 := by norm_num
  rw [Scalar.atMostOne, one]
  split
  · rename_i below
    exact ⟨div_nonneg counted whole, below.le⟩
  · exact ⟨zero_le_one, le_rfl⟩

theorem Trail.ahead_inRegion (unit : Angle.UnitDirections K) (trail : Trail i anchor k calls leg)
    (fair : ∀ call ∈ calls, call.Between) :
    InRegion i anchor (ahead leg) := by
  obtain ⟨departure, target⟩ := trail.inRegion unit fair
  obtain ⟨low, high⟩ := trail.onLeg.fraction_mem (K := K)
  exact departure.lerp target low high

/-! ### The ticks of an occurrence -/

/-- After `k` ticks of one occurrence of `i` the dispatch loop comes to it once more.  The first of
them has found the enemy as `entry`, and the host of each draws between the bounds. -/
inductive Walks (p : Program Kind K) (i : Instruction Kind K) (entry : Body K) :
    ∀ {η : Type}, Host K η → ℕ → Pulse Kind K (Body K × η) → Prop
  | enter {η : Type} {host : Host K η} {t : Pulse Kind K (Body K × η)} (draws : host.DrawsBetween)
      (comes : steering.Comes p i host t) (first : t.cursor.frame = 0)
      (found : t.state.1 = entry) : Walks p i entry host 0 t
  | again {η η' : Type} {host : Host K η} {host' : Host K η'} {k : ℕ}
      {t : Pulse Kind K (Body K × η)} {c : Cursor Kind K} {state : Body K × η} {x : Body K} {h : η'}
      (draws : host'.DrawsBetween) (before : Walks p i entry host k t)
      (hstep : t.step (interpreter host) = .ok (.done true c state)) :
      Walks p i entry host' (k + 1) (.ofCursor c (x, h))

variable {prog : Program Kind K} {entry : Body K} {pulse : Pulse Kind K (Body K × η)}

omit [IsStrictOrderedRing K] in
theorem Walks.draws (walks : Walks prog i entry host k pulse) : host.DrawsBetween := by
  cases walks <;> assumption

omit [IsStrictOrderedRing K] in
/-- Whatever a tick asks for is answered between the bounds. -/
theorem between_of_step (draws : host.DrawsBetween) (run : pulse.Runs i) {c : Cursor Kind K}
    {b : Body K} {h : η} {asked : List (HostCall K)}
    (hstep : pulse.unheard.step (interpreter host.recorded) = .ok (.done true c (b, h, asked))) :
    ∀ call ∈ asked, call.Between := by
  have run' : pulse.unheard.Runs i := ⟨run.here, run.allowed⟩
  obtain ⟨-, left, call, -⟩ := Pulse.suspended_of_step run' hstep
  have silent : ∀ call ∈ ([] : List (HostCall K)), call.Between := by simp
  exact (timed_keeps draws.keeps silent call).2

omit [IsStrictOrderedRing K] in
/-- So is all that an occurrence asks for. -/
theorem Walks.asks (walks : Walks prog i entry host k pulse) :
    ∃ calls, steering.Asks prog i entry host k pulse calls ∧ ∀ call ∈ calls, call.Between := by
  induction walks with
  | enter _ comes first found => exact ⟨[], .enter comes first found, by simp⟩
  | @again _ _ _ _ _ _ c state _ _ _ before hstep ih =>
      obtain ⟨calls, asks, fair⟩ := ih
      obtain ⟨asked, hrecorded⟩ := recordable.step_eq_done.mp hstep
      refine ⟨calls ++ asked, .again asks hrecorded (asks.comes.again answers hstep _ _ _), ?_⟩
      exact List.forall_mem_append.mpr ⟨fair, between_of_step before.draws asks.comes.run hrecorded⟩

/--
**Random walks stay in their region.**  If directions have length one and draws lie between
their bounds, every tick within the span of a random walk comes to a result, and changes
the position of the enemy only, whatever the owner has done to it since the tick before.
It is then in the disc around the position that the first tick has found, or in the box
around it.
-/
theorem walks_stayInRegion (unit : Angle.UnitDirections K) (roams : i.kind.roams = true)
    (walks : Walks prog i entry host k pulse) (more : k < i.duration.toNatClampNeg) :
    ∃ c position h, pulse.step (interpreter host) =
        .ok (.done true c ({ pulse.state.1 with position }, h)) ∧
      InRegion i entry.position position := by
  obtain ⟨calls, asks, fair⟩ := walks.asks
  have walked := walked roams asks
  generalize hstep : pulse.unheard.step (interpreter host.recorded) = o at walked
  cases walked with
  | @moves _ begun drawn leg leg' on goes c stored h =>
      have asked := between_of_step walks.draws asks.comes.run hstep
      obtain ⟨fair', -⟩ := List.forall_mem_append.mp asked
      refine ⟨c, ahead leg, h, recordable.step_eq_done.mpr ⟨_, hstep⟩, ?_⟩
      exact on.ahead_inRegion unit (List.forall_mem_append.mpr ⟨fair, fair'⟩)
  | rests ended _ _ => exact absurd ended more.ne
  | crashes _ breaks =>
      obtain ⟨low, high, h, hdraw⟩ := breaks
      obtain ⟨x, h', hdraw', -⟩ := walks.draws low high h
      cases hdraw.symm.trans hdraw'

/-- An enemy that wanders for two ticks. -/
noncomputable def wanderer : Program Kind ℝ :=
  .ofInstructions [Command.wander (-5) 2 2]

theorem walks_stayInRegion_moved :
    let wander := Command.wander (-5 : ℝ) 2 2
    let host := Host.still (.bare ℝ) fun _ high => high
    ∃ entry pulse c position h, Walks wanderer wander entry host 1 pulse ∧
      entry.position = ⟨192, 32⟩ ∧ pulse.state.1.position = ⟨0, 0⟩ ∧
      pulse.step (interpreter host) = .ok (.done true c ({ pulse.state.1 with position }, h)) ∧
      (position.x - 192) ^ 2 + (position.y - 32) ^ 2 ≤ 5 ^ 2 := by
  intro wander host
  have draws : host.DrawsBetween :=
    fun low high h => ⟨high, h, rfl, Set.right_mem_uIcc⟩
  let b : Body ℝ := .ofPosition ⟨192, 32⟩
  let pulse : Pulse Kind ℝ _ := .ofCursor (.ofProgram wanderer) (b, ())
  have comes : steering.Comes wanderer wander host pulse := ⟨.start, rfl, .start, rfl, by decide⟩
  have enters : Walks wanderer wander b host 0 pulse := .enter draws comes rfl rfl
  obtain ⟨c, position, h, hstep, -⟩ :=
    walks_stayInRegion Angle.unitDirections_real rfl enters (by decide)
  -- the owner puts the enemy somewhere else
  let moved : Body ℝ := { b with position := ⟨0, 0⟩ }
  have next : Walks wanderer wander b host 1 (.ofCursor c (moved, ())) :=
    .again draws enters hstep
  obtain ⟨c', position', h', hstep', inRegion⟩ :=
    walks_stayInRegion Angle.unitDirections_real rfl next (by decide)
  refine ⟨b, _, c', position', h', next, rfl, rfl, hstep', ?_⟩
  have disc := inRegion.disc rfl
  have radius : |wander.first| = 5 := by
    show |(-5 : ℝ)| = 5
    norm_num
  rwa [radius] at disc

end Enemy

end Barrage
