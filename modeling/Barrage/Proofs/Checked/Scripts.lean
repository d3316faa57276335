/-
Scripts with checked arithmetic.

Few handlers calculate with machine integers.  A wave and a random walk count one tick
further, a zigzag divides by its count, a walk divides by the ticks of its leg, and a
volley takes one off its number of bullets; a shuffled one looks angles up by position.
These are written down once more with checks, and all else is left to the plain handlers.

The reasons that the checks pass are in different places.  Most are in the handler
itself, which has looked at its operands before.  A wave is told a frame that is less
than its duration.  A leg that is remembered has a tick left, `OnLeg`, and this holds
only of the scripts that ticks of an enemy lead to.  The positions come from the host, so a
shuffle is asked to permute.
-/
import Barrage.Proofs.Checked.Machine
import Barrage.Proofs.Enemy.Walk
import Barrage.Proofs.Shot.Shuffle

namespace Barrage

open Checked (lift lift_bind lift_mapM)

variable {α η : Type} [Scalar α]

/-! ### Bullets

A wave counts its frame one tick further, which has room because the frame is below the
duration.  A zigzag divides by its count or by one, whichever is more.
-/

namespace Bullet

def tickChecked (host : Host α η) (i : Instruction Kind α) (frame : Int32) (t : α)
    (given : Option (Scratch α)) (m : Motion α) :
    Except Fault (Hold × Option (Scratch α) × Motion α) :=
  match i.kind with
  | .wave => do
    let ticks ← Checked.add frame 1
    let offset := waveOffset i.first i.second ticks
    return (.pending, some (.wave offset),
      { m with heading := m.heading + (offset - appliedWave given) })
  | .zigzag => do
    let base := startOr given m.heading
    let turns ← Checked.div frame (max i.count 1)
    let side : α := if turns % 2 = 0 then 1.0 else -1.0
    return (.pending, some (.start base), { m with heading := base + side * i.first })
  | _ => lift (tick host i frame t given m)

def handlers (host : Host α η) : Checked.Handlers Kind α (Motion α × η) where
  instant i state := lift ((interpreter host).instant i state)
  timed i phase given := fun (m, h) =>
    match phase with
    | .run frame _ t => do
      let (hold, left, m) ← tickChecked host i frame t given m
      return (hold, left, m, h)
    | .finish => lift ((interpreter host).timed i .finish given (m, h))

variable {host : Host α η} {i : Instruction Kind α} {frame : Int32} {fraction : α}
  {given : Option (Scratch α)} {m : Motion α}

theorem tickChecked_eq (more : i.kind = .wave → frame < i.duration) :
    tickChecked host i frame fraction given m = lift (tick host i frame fraction given m) := by
  unfold tickChecked tick
  cases hkind : i.kind
  case wave =>
    dsimp only
    rw [Checked.add_one (more hkind)]
    rfl
  case zigzag =>
    dsimp only
    rw [Checked.div_of_pos (Enemy.one_le_max i.count)]
    rfl
  all_goals rfl

theorem handlers_agreeAt (host : Host α η) (t : Pulse Kind α (Motion α × η))
    (i : Instruction Kind α) : (handlers host).AgreeAt (interpreter host) t i where
  instant := rfl
  run hold fraction := by
    have more : i.kind = .wave → t.cursor.frame < i.duration := by
      intro wave
      rcases hold with yields | ⟨-, more⟩
      · rw [show i.flow = i.kind.flow from rfl, wave] at yields
        cases yields
      · exact more
    simp only [handlers, interpreter]
    rw [tickChecked_eq more, lift_bind]
    rfl
  finish := rfl

end Bullet

/-! ### Enemies

The handlers of walks are where the operands do not suffice: that a leg has a tick left
is true of the legs that walks leave, and not of any leg.  So agreement is proved for
ticks that scripts come to, and what is kept there has been left by the same walk.  The
invariant has been proved for hosts that write down what they are asked, and
`choice_unrecorded` takes the record away again.
-/

namespace Enemy

/-- One tick of a random walk. -/
def walkChecked (choose : LegChoice α η) (given : Option (Scratch α)) (b : Body α) (h : η) :
    Except Fault (Option (Scratch α) × Body α × η) := do
  let (leg, h) ← lift (currentLeg choose given b.position h)
  let timer ← Checked.add leg.timer 1
  let fraction ← Checked.ratio timer leg.span
  let b := { b with position := leg.departure.lerp leg.target (Scalar.atMostOne fraction) }
  if leg.span ≤ timer then
    let ((target, span), h) ← lift (choose leg.anchor leg.target h)
    let next : Leg α := { anchor := leg.anchor, departure := leg.target, target, timer := 0, span }
    return (some (.leg next), b, h)
  else
    return (some (.leg { leg with timer }), b, h)

def tickChecked (host : Host α η) (i : Instruction Kind α) (frame : Int32) (t : α)
    (given : Option (Scratch α)) (b : Body α) (h : η) :
    Except Fault (Option (Scratch α) × Body α × η) :=
  match i.kind with
  | .wander => walkChecked (chooseNear host (Scalar.abs i.first) (max i.count 1)) given b h
  | .patrol => walkChecked (chooseInBox host i.vector.abs (Scalar.abs i.first)) given b h
  | _ => lift (tick host i frame t given b h)

def handlers (host : Host α η) : Checked.Handlers Kind α (Body α × η) where
  instant i state := lift ((interpreter host).instant i state)
  timed i phase given := fun (b, h) =>
    match phase with
    | .run frame _ t => do
      let state ← tickChecked host i frame t given b h
      return (.pending, state)
    | .finish => lift ((interpreter host).timed i .finish given (b, h))

variable {host : Host α η} {i : Instruction Kind α} {given : Option (Scratch α)} {b : Body α}
  {h h' : η} {p : Program Kind α} {t : Pulse Kind α (Body α × η)}

/-- A leg that is not over can be taken one tick further, and has ticks to be divided by. -/
theorem walkChecked_eq {choose : LegChoice α η}
    (current : ∀ leg h₁, currentLeg choose given b.position h = .ok (leg, h₁) →
      ∃ anchor, OnLeg anchor leg) :
    walkChecked choose given b h = lift (walk choose given b h) := by
  unfold walkChecked walk
  rw [lift_bind]
  cases hcurrent : currentLeg choose given b.position h with
  | error e => rfl
  | ok result =>
      obtain ⟨leg, h₁⟩ := result
      obtain ⟨anchor, on⟩ := current leg h₁ hcurrent
      have positive : (0 : Int32) < leg.span :=
        Int32.lt_of_lt_of_le (show (0 : Int32) < 1 by decide) on.span
      have nonzero : leg.span ≠ 0 := fun zero => absurd (zero ▸ positive) (by decide)
      show (Checked.add leg.timer 1 >>= _) = _
      rw [Checked.add_one on.within]
      show (Checked.ratio (leg.timer + 1) leg.span >>= _) = _
      rw [Checked.ratio_of_ne_zero nonzero]
      show (if leg.span ≤ leg.timer + 1 then _ else _) =
        lift (if leg.span ≤ leg.timer + 1 then _ else _)
      by_cases arrived : leg.span ≤ leg.timer + 1
      · rw [if_pos arrived, if_pos arrived, lift_bind]
        rfl
      · rw [if_neg arrived, if_neg arrived]
        rfl

theorem choice_unrecorded (roams : i.kind.roams = true) (anchor departure : Vec2 α)
    (s : η × List (HostCall α)) : choice host i anchor departure s.1 =
      Prod.map id Prod.fst <$> choice host.recorded i anchor departure s := by
  unfold choice
  rcases Kind.roams_iff.mp roams with kind | kind <;> simp only [kind]
  · exact chooseNear_unrecorded _ _ _ _ s
  · exact chooseInBox_unrecorded _ _ _ _ s

/-- Wherever a tick comes to a walk, the leg is not over. -/
theorem current_onLeg (roams : i.kind.roams = true) (comes : steering.Comes p i host t)
    {leg : Leg α} {h₁ : η}
    (hcurrent : currentLeg (choice host i) t.kept t.state.1.position t.state.2 = .ok (leg, h₁)) :
    ∃ anchor, OnLeg anchor leg := by
  obtain ⟨entry, k, occurs⟩ := comes.occurs
  obtain ⟨calls, asks⟩ := occurs.asks recordable
  -- a trail is told of a host that writes down what it is asked, and its legs are the same
  have same : currentLeg (choice host i) t.kept t.state.1.position t.state.2 =
      Prod.map id Prod.fst <$>
        currentLeg (choice host.recorded i) t.kept t.state.1.position (t.state.2, []) :=
    currentLeg_unrecorded (choice_unrecorded roams) t.kept t.state.1.position (t.state.2, [])
  rw [same] at hcurrent
  obtain ⟨⟨leg', s₁⟩, recorded, viewed⟩ := map_eq_ok.mp hcurrent
  cases viewed
  exact ⟨_, (trail_of_asks roams asks recorded).onLeg⟩

theorem tickChecked_eq (comes : steering.Comes p i host t) (fraction : α) :
    tickChecked host i t.cursor.frame fraction t.kept t.state.1 t.state.2 =
      lift (tick host i t.cursor.frame fraction t.kept t.state.1 t.state.2) := by
  by_cases roams : i.kind.roams = true
  · have walks : tickChecked host i t.cursor.frame fraction t.kept t.state.1 t.state.2 =
        walkChecked (choice host i) t.kept t.state.1 t.state.2 := by
      unfold tickChecked choice
      rcases Kind.roams_iff.mp roams with kind | kind <;> simp only [kind]
    rw [walks, tick_roams roams]
    exact walkChecked_eq fun leg h₁ hcurrent => current_onLeg roams comes hcurrent
  · unfold tickChecked
    cases hkind : i.kind <;> simp [hkind, Kind.roams] at roams ⊢

theorem handlers_agreeAt (comes : steering.Comes p i host t) :
    (handlers host).AgreeAt (interpreter host) t i where
  instant := rfl
  run hold fraction := by
    simp only [handlers, interpreter]
    rw [tickChecked_eq comes, lift_bind]
    rfl
  finish := rfl

end Enemy

/-! ### Volleys

One is taken off a count of two at least.
-/

namespace Spread

def stepChecked (count : Int32) (arc : α) : Except Fault α :=
  if count ≤ 1 then .ok 0.0
  else if isFullCircle arc then .ok (arc / Scalar.ofInt32 count)
  else do
    let gaps ← Checked.sub count 1
    return arc / Scalar.ofInt32 gaps

def anglesChecked (count : Int32) (start arc : α) : Except Fault (List α) := do
  let gap ← stepChecked count arc
  return evenly count start gap

def centeredAnglesChecked (count : Int32) (center arc : α) : Except Fault (List α) :=
  if count = 1 then .ok [center] else anglesChecked count (center - arc / 2.0) arc

def fanSpeedsChecked (count : Int32) (low high : α) : Except Fault (List α) :=
  if count ≤ 0 then .ok []
  else if count = 1 then .ok [low]
  else do
    let gaps ← Checked.sub count 1
    return evenly count low ((high - low) / Scalar.ofInt32 gaps)

theorem stepChecked_eq (count : Int32) (arc : α) :
    stepChecked count arc = .ok (step count arc) := by
  unfold stepChecked step
  by_cases few : count ≤ 1
  · rw [if_pos few, if_pos few]
  · rw [if_neg few, if_neg few, Checked.sub_one (Int32.not_le.mp few)]
    split <;> rfl

theorem anglesChecked_eq (count : Int32) (start arc : α) :
    anglesChecked count start arc = .ok (angles count start arc) := by
  rw [anglesChecked, stepChecked_eq]
  rfl

theorem centeredAnglesChecked_eq (count : Int32) (center arc : α) :
    centeredAnglesChecked count center arc = .ok (centeredAngles count center arc) := by
  unfold centeredAnglesChecked centeredAngles
  split
  · rfl
  · exact anglesChecked_eq _ _ _

theorem fanSpeedsChecked_eq (count : Int32) (low high : α) :
    fanSpeedsChecked count low high = .ok (fanSpeeds count low high) := by
  unfold fanSpeedsChecked fanSpeeds
  by_cases none : count ≤ 0
  · rw [if_pos none, if_pos none]
  · rw [if_neg none, if_neg none, Checked.sub_one (Int32.not_le.mp none)]
    split <;> rfl

end Spread

/-! ### Shots

Positions are looked up in a shuffled volley only, where the host chooses them.
-/

namespace Shot

def pickChecked (items : List α) (order : List Nat) : Except Fault (List α) :=
  order.mapM fun k => Checked.item items.toArray k

def volleyChecked? (host : Host α η) (i : Instruction Kind α) (e : Emitter α) (h : η) :
    Except Fault (Option (List (Round α)) × η) :=
  let atAngles (angles : List α) : Option (List (Round α)) :=
    some (angles.map fun angle => e.plain angle i.first)
  let start := i.vector.x
  let arc := i.vector.y
  match i.kind with
  | .fireSpeeds => do
    let speeds ← Spread.fanSpeedsChecked i.count i.first i.second
    return (some (speeds.map (e.plain 0.0)), h)
  | .fireSpread => do
    let angles ← Spread.anglesChecked i.count start arc
    return (atAngles angles, h)
  | .fireSpreadCentered => do
    let angles ← Spread.centeredAnglesChecked i.count start arc
    return (atAngles angles, h)
  | .fireSpreadShuffled => do
    let angles ← Spread.anglesChecked i.count start arc
    let (order, h) := host.shuffle (List.range angles.length) h
    return (atAngles (← pickChecked angles order), h)
  | .fireRing => do
    let angles ← Spread.anglesChecked i.count 0.0 360.0
    return (atAngles angles, h)
  | _ => lift (volley? host i e h)

def actChecked (host : Host α η) (i : Instruction Kind α) (e : Emitter α) (h : η) :
    Except Fault (Emitter α × η) := do
  match ← volleyChecked? host i e h with
  | (some rounds, h) => lift (fire host rounds e h)
  | (none, h) => return adjust host i e h

def handlers (host : Host α η) : Checked.Handlers Kind α (Emitter α × η) where
  instant i := fun (e, h) => do
    let state ← actChecked host i e h
    return (.proceed, state)
  timed i phase given state := lift ((interpreter host).timed i phase given state)

omit [Scalar α] in
theorem pickChecked_eq {items : List α} {order : List Nat}
    (inRange : ∀ k ∈ order, k < items.length) :
    pickChecked items order = lift (pick items order) := by
  refine lift_mapM fun k hk => ?_
  have hk : k < items.toArray.size := inRange k hk
  rw [Checked.item_of_lt hk, Array.getElem?_eq_getElem hk]
  rfl

variable {host : Host α η}

theorem volleyChecked_eq (permutes : ∀ items h, (host.shuffle items h).1.Perm items)
    (i : Instruction Kind α) (e : Emitter α) (h : η) :
    volleyChecked? host i e h = lift (volley? host i e h) := by
  unfold volleyChecked? volley?
  cases hkind : i.kind
  case fireSpreadShuffled =>
    let angles := Spread.angles i.count i.vector.x i.vector.y
    dsimp only
    rw [Spread.anglesChecked_eq]
    -- a permutation of the positions has no others
    have inRange : ∀ k ∈ (host.shuffle (List.range angles.length) h).1, k < angles.length := by
      intro k hk
      exact List.mem_range.mp ((permutes _ _).mem_iff.mp hk)
    show (pickChecked angles _ >>= _) = lift (pick angles _ >>= _)
    rw [pickChecked_eq inRange, lift_bind]
    rfl
  case fireSpeeds =>
    dsimp only
    rw [Spread.fanSpeedsChecked_eq]
    rfl
  case fireSpreadCentered =>
    dsimp only
    rw [Spread.centeredAnglesChecked_eq]
    rfl
  case fireSpread | fireRing =>
    dsimp only
    rw [Spread.anglesChecked_eq]
    rfl
  all_goals rfl

theorem handlers_agreeAt (permutes : ∀ items h, (host.shuffle items h).1.Perm items)
    (t : Pulse Kind α (Emitter α × η)) (i : Instruction Kind α) :
    (handlers host).AgreeAt (interpreter host) t i where
  instant := by
    simp only [handlers, interpreter, actChecked, act]
    rw [volleyChecked_eq permutes, lift_bind, lift_bind]
    refine congrArg (· >>= _) (bind_congr fun described => ?_)
    obtain ⟨rounds?, h⟩ := described
    cases rounds? <;> rfl
  run _ _ := rfl
  finish := rfl

end Shot

/-! ### A yield that is never released

A span is over when the counter of ticks has reached its duration, and that is a number
of 32 bits itself.  A yield has no duration, so it alone can be held for longer than the
counter can tell.
-/

/-- The handler of `i` never lets go. -/
def Interpreter.NeverReleases {κ σ : Type} (I : Interpreter κ α σ) (i : Instruction κ α) : Prop :=
  ∀ frame duration fraction given state, ∃ left state',
    I.timed i (.run frame duration fraction) given state = .ok (.pending, left, state')

namespace Program

variable {κ σ : Type} [Vocabulary κ] {p : Program κ α} {I : Interpreter κ α σ}
  {i : Instruction κ α} {n k : Nat} {t t' : Pulse κ α (σ × List (HandlerCall κ α))}

/-- What yields to a handler that never lets go is held for any number of ticks. -/
theorem Begins.lasts_of_neverReleases (begins : p.Begins I n t) (run : t.Runs i)
    (yields : i.flow = .yielding) (never : I.NeverReleases i) (k : Nat) : ∃ t', t.Lasts I k t' := by
  induction k with
  | zero => exact ⟨t, .begin⟩
  | succ k ih =>
      obtain ⟨t', lasts⟩ := ih
      obtain ⟨-, span⟩ := begins.lasts run (Or.inr yields) lasts
      obtain ⟨left, state', call⟩ := never t'.cursor.frame i.duration (i.fraction t'.cursor.frame)
        t'.kept t'.state.1
      have hstep : ∃ c calls, t'.step I.recorded = .ok (.done true c (state', calls)) := by
        rw [Pulse.step_hold span.runs (Or.inl yields)]
        simp only [Interpreter.recorded]
        rw [call]
        exact ⟨_, _, rfl⟩
      obtain ⟨c, calls, hstep⟩ := hstep
      exact ⟨_, .again lasts hstep state'⟩

theorem Begins.frame_saturates (begins : p.Begins I n t) (run : t.Runs i)
    (yields : i.flow = .yielding) (lasts : t.Lasts I k t') :
    t'.cursor.frame.toInt = min k (2 ^ 31 - 1) := by
  obtain ⟨-, span⟩ := begins.lasts run (Or.inr yields) lasts
  rw [span.frame, frameAt_toInt]

end Program

/-! ### The theorem -/

/--
**Integer arithmetic and indexing are safe.**  Whatever the operands of a program are, from
every cursor that its updates lead to, the machine with checks comes to what the one without
them does.  So no check ever fails: neither one of the loop, under any interpreter, nor one
of the handlers of bullets and enemies, in any world, nor one of the handlers of shots, in
any world whose shuffle permutes.  And the counter of ticks of a yield that is never
released stays at its largest value, however long that lasts.
-/
theorem checks_pass :
    (∀ {κ σ : Type} [Vocabulary κ] (I : Interpreter κ α σ) (p : Program κ α) c state,
      c.Reachable p → Checked.update (.of I) c state = lift (c.update I state)) ∧
    (∀ {η : Type} (host : Host α η) (p : Program Bullet.Kind α) c state, c.Reachable p →
      Checked.update (Bullet.handlers host) c state =
        lift (c.update (Bullet.interpreter host) state)) ∧
    (∀ {η : Type} (host : Host α η) (p : Program Enemy.Kind α) c state,
      Enemy.steering.Leads p c → Checked.update (Enemy.handlers host) c state =
        lift (c.update (Enemy.interpreter host) state)) ∧
    (∀ {η : Type} (host : Host α η) (p : Program Shot.Kind α) c state,
      (∀ items h, (host.shuffle items h).1.Perm items) → c.Reachable p →
        Checked.update (Shot.handlers host) c state =
          lift (c.update (Shot.interpreter host) state)) ∧
    ∀ {κ σ : Type} [Vocabulary κ] (I : Interpreter κ α σ) (p : Program κ α) n t i,
      p.Begins I n t → t.Runs i → i.flow = .yielding →
        (I.NeverReleases i → ∀ k, ∃ t', t.Lasts I k t') ∧
          ∀ k t', t.Lasts I k t' → t'.cursor.frame.toInt = min k (2 ^ 31 - 1) := by
  refine ⟨?_, ?_, ?_, ?_, ?_⟩
  · intro κ σ _ I p c state reachable
    exact Checked.update_eq reachable fun _ t i _ _ => Checked.Handlers.of_agreeAt I t i
  · intro η host p c state reachable
    exact Checked.update_eq reachable fun _ t i _ _ => Bullet.handlers_agreeAt host t i
  · intro η host p c state led
    exact Checked.update_eq led.reachable fun unfinished t i within run =>
      Enemy.handlers_agreeAt ⟨led, unfinished, within, run⟩
  · intro η host p c state permutes reachable
    exact Checked.update_eq reachable fun _ t i _ _ => Shot.handlers_agreeAt permutes t i
  · intro κ σ _ I p n t i begins run yields
    exact ⟨begins.lasts_of_neverReleases run yields, fun k t' => begins.frame_saturates run yields⟩

/-- A bullet that sways for a tick and then swings for as long as can be written down. -/
def restless : Program Bullet.Kind Float32 :=
  .ofInstructions [Bullet.Command.wave 30.0 4.0 1, .loopStart 2, .loopEnd,
    Bullet.Command.zigzag 30.0 (-2147483648) 2147483647]

/-- An enemy that wanders without any time for that. -/
def hasty : Program Enemy.Kind Float32 :=
  .ofInstructions [Enemy.Command.wander 5.0 (-2147483648) 2]

/-- A shot that fires fewer bullets than none, and then three. -/
def sparse : Program Shot.Kind Float32 :=
  .ofInstructions [Shot.Command.fireSpeeds (-2147483648) 1.0 2.0,
    Shot.Command.fireSpreadShuffled 3 0.0 90.0 2.0]

/-- A bullet that asks to be fired again and waits for that. -/
def insistent : Program Bullet.Kind Float32 :=
  .ofInstructions [Bullet.Command.refire]

theorem checks_pass_extremes :
    let host := Recorder.host Shot.orbs true
    let r := Recorder.ofChance (.scripted #[0.5] 0)
    let I : Interpreter Bullet.Kind Float32 _ := (⟨[], #[], .keep⟩ : Probe Bullet.Kind).interpreter
    (∃ c state c' state',
      Checked.update (Bullet.handlers host) (.ofProgram restless) (.straight .zero 2.0 90.0, r) =
        .ok (true, c, state) ∧
      Checked.update (Bullet.handlers host) c state = .ok (true, c', state') ∧ c'.ip = 3) ∧
    (∃ c b r₁ leg c' state',
      Checked.update (Enemy.handlers host) (.ofProgram hasty) (.ofPosition .zero, r) =
        .ok (true, c, b, r₁) ∧ c.scratch[0]? = some (.leg leg) ∧ leg.span = 1 ∧
      Checked.update (Enemy.handlers host) c (b, r₁) = .ok (true, c', state')) ∧
    (∃ c e r',
      Checked.update (Shot.handlers host) (.ofProgram sparse) (.ofOrigin .zero, r) =
        .ok (false, c, e, r') ∧ e.fired = 3) ∧
    ∃ t, (Pulse.ofCursor (.ofProgram insistent) (⟨#[], 0⟩, [])).Lasts I (2 ^ 31 + 5) t ∧
      t.cursor.frame = Int32.maxValue := by
  intro host r I
  obtain ⟨-, bullets, enemies, shots, yields⟩ := checks_pass (α := Float32)
  refine ⟨?_, ?_, ?_, ?_⟩
  · obtain ⟨c, state, hu, hview⟩ : ∃ c state,
        (Cursor.ofProgram restless).update (Bullet.interpreter host) (.straight .zero 2.0 90.0, r) =
          .ok (true, c, state) ∧
        (fun o => (o.1, o.2.1.ip)) <$> c.update (Bullet.interpreter host) state = .ok (true, 3) :=
      ⟨_, _, rfl, by decide +kernel⟩
    obtain ⟨⟨running, c', state'⟩, hu', hview⟩ := map_eq_ok.mp hview
    obtain ⟨rfl, ip⟩ := Prod.mk.inj hview
    refine ⟨c, state, c', state', ?_, ?_, ip⟩
    · rw [bullets host restless _ _ .start, hu]
      rfl
    · rw [bullets host restless _ _ (.update .start hu), hu']
      rfl
  · obtain ⟨c, b, r₁, leg, hu, hscript, hleg, span, hview⟩ : ∃ c b r₁ leg,
        Enemy.update host (.ofProgram hasty) (.ofPosition .zero) r = .ok (true, c, b, r₁) ∧
        (Cursor.ofProgram hasty).update (Enemy.interpreter host) (.ofPosition .zero, r) =
          .ok (true, c, b, r₁) ∧
        c.scratch[0]? = some (.leg leg) ∧ leg.span = 1 ∧
        (fun o => o.1) <$> c.update (Enemy.interpreter host) (b, r₁) = .ok true :=
      ⟨_, _, _, _, rfl, rfl, rfl, rfl, by decide +kernel⟩
    obtain ⟨⟨running, c', state'⟩, hu', rfl⟩ := map_eq_ok.mp hview
    refine ⟨c, b, r₁, leg, c', state', ?_, hleg, span, ?_⟩
    · rw [enemies host hasty _ _ .start, hscript]
      rfl
    · rw [enemies host hasty _ _ (.tick .start hu), hu']
      rfl
  · have hview : (fun o => (o.1, o.2.2.1.fired)) <$> (Cursor.ofProgram sparse).update
        (Shot.interpreter host) (.ofOrigin .zero, r) = .ok (false, 3) := by decide +kernel
    obtain ⟨⟨running, c, e, r'⟩, hu, hview⟩ := map_eq_ok.mp hview
    obtain ⟨rfl, fired⟩ := Prod.mk.inj hview
    refine ⟨c, e, r', ?_, fired⟩
    rw [shots host sparse _ _ (Recorder.host_drawsFairly Shot.orbs true).shuffle .start, hu]
    rfl
  · have begins : insistent.Begins I 0 (.ofCursor (.ofProgram insistent) (⟨#[], 0⟩, [])) :=
      .first (.start _) (by decide)
    obtain ⟨lasts, saturates⟩ :=
      yields I insistent 0 _ Bullet.Command.refire begins ⟨rfl, by decide⟩ rfl
    obtain ⟨t, long⟩ := lasts (fun _ _ _ _ _ => ⟨_, _, rfl⟩) (2 ^ 31 + 5)
    refine ⟨t, long, ?_⟩
    rw [← Int32.toInt_inj, saturates _ t long]
    rfl

end Barrage
