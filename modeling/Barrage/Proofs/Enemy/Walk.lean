/-
Random walks, leg by leg.

Two counters run while an enemy walks: the ticks of the instruction, and the ticks of
the leg that it is on.  The second starts over with each leg, and the next leg is chosen
on the tick that ends the one before, so there is always a leg that is not over.

`Goes` is what one tick does to a leg and `Trail` what `k` ticks have done, with
everything that they have asked the host for.  That a leg is not over, and how many legs
there have been, are read off `Trail` alone; that an occurrence follows a trail is
`trail_of_asks`.
-/
import Barrage.Proofs.Host.Asking

namespace Barrage.Enemy

variable {α η : Type} [Scalar α]

/-- The kinds that walk at random. -/
def Kind.roams : Kind → Bool
  | .wander | .patrol => true
  | _ => false

/-- How the legs of a random walk are chosen. -/
def choice (host : Host α η) (i : Instruction Kind α) : LegChoice α η :=
  match i.kind with
  | .wander => chooseNear host (Scalar.abs i.first) (max i.count 1)
  | _ => chooseInBox host i.vector.abs (Scalar.abs i.first)

/-! ### There is always a leg that is not over

The counter of a leg is a number of 32 bits.  It is below the span, so counting on does
not overflow; and the next leg begins at zero with a span of one at least, so it is not
over either.
-/

variable {i : Instruction Kind α} {anchor departure target : Vec2 α} {span : Int32}
  {drawn calls : List (HostCall α)} {k : Nat}

/-- What is drawn for the target and the span of a leg, and what they are then. -/
inductive Picks (i : Instruction Kind α) (anchor departure : Vec2 α) :
    List (HostCall α) → Vec2 α → Int32 → Prop
  | near (kind : i.kind = .wander) (heading distance : α) :
      Picks i anchor departure
        [.uniform 0.0 360.0 heading, .uniform 0.0 (Scalar.abs i.first) distance]
        (anchor + Angle.direction heading * distance) (max i.count 1)
  | inBox (kind : i.kind = .patrol) (x y : α) :
      Picks i anchor departure
        [.uniform (-i.vector.abs.x) i.vector.abs.x x, .uniform (-i.vector.abs.y) i.vector.abs.y y]
        (anchor + ⟨x, y⟩)
        (legTicks (departure.distance (anchor + ⟨x, y⟩)) (Scalar.abs i.first))

/-- What one tick makes of a leg, and what is drawn for that. -/
inductive Goes (i : Instruction Kind α) (leg : Leg α) : List (HostCall α) → Leg α → Prop
  | along (more : leg.timer + 1 < leg.span) : Goes i leg [] { leg with timer := leg.timer + 1 }
  | turn (arrived : leg.span ≤ leg.timer + 1) {drawn : List (HostCall α)} {target : Vec2 α}
      {span : Int32} (picks : Picks i leg.anchor leg.target drawn target span) :
      Goes i leg drawn { anchor := leg.anchor, departure := leg.target, target, timer := 0, span }

/-- The leg that a walk around `anchor` is on after `k` ticks, and all that has been asked for it. -/
inductive Trail (i : Instruction Kind α) (anchor : Vec2 α) : Nat → List (HostCall α) → Leg α → Prop
  | first {drawn : List (HostCall α)} {target : Vec2 α} {span : Int32}
      (picks : Picks i anchor anchor drawn target span) :
      Trail i anchor 0 drawn { anchor, departure := anchor, target, timer := 0, span }
  | tick {k : Nat} {calls drawn : List (HostCall α)} {leg leg' : Leg α}
      (before : Trail i anchor k calls leg) (goes : Goes i leg drawn leg') :
      Trail i anchor (k + 1) (calls ++ drawn) leg'

/-- The leg is one of a walk around `anchor`, and is not over. -/
structure OnLeg (anchor : Vec2 α) (leg : Leg α) : Prop where
  anchor : leg.anchor = anchor
  span : 1 ≤ leg.span
  timer : 0 ≤ leg.timer
  within : leg.timer < leg.span

theorem one_le_max (n : Int32) : 1 ≤ max n 1 := by
  show 1 ≤ if n ≤ 1 then 1 else n
  by_cases small : n ≤ 1
  · rw [if_pos small]
    exact Int32.le_refl 1
  · rw [if_neg small]
    exact Int32.le_of_lt (Int32.not_le.mp small)

theorem legTicks_pos (distance speed : α) : 1 ≤ legTicks distance speed := by
  unfold legTicks
  split
  · exact Int32.le_refl 1
  · exact one_le_max _

theorem Picks.span_pos (picks : Picks i anchor departure drawn target span) : 1 ≤ span := by
  cases picks with
  | near _ _ _ => exact one_le_max _
  | inBox _ _ _ => exact legTicks_pos _ _

/-- A leg that begins is not over. -/
theorem onLeg_begins (picks : Picks i anchor departure drawn target span) (origin : Vec2 α) :
    OnLeg origin { anchor := origin, departure, target, timer := 0, span } where
  anchor := rfl
  span := picks.span_pos
  timer := Int32.le_refl 0
  within := Int32.lt_of_lt_of_le (show (0 : Int32) < 1 by decide) picks.span_pos

omit [Scalar α] in
/-- A leg that is not over has room for one more tick in its counter. -/
theorem OnLeg.toInt_next {leg : Leg α} (on : OnLeg anchor leg) :
    (leg.timer + 1).toInt = leg.timer.toInt + 1 := by
  have timer := Int32.le_iff_toInt_le.mp on.timer
  have within := Int32.lt_iff_toInt_lt.mp on.within
  have greatest := leg.span.toInt_lt
  rw [Int32.toInt_zero] at timer
  rw [Int32.toInt_add, Int32.toInt_one, Int.bmod_eq_of_le] <;> omega

theorem Goes.onLeg {leg leg' : Leg α} (goes : Goes i leg drawn leg') (on : OnLeg anchor leg) :
    OnLeg anchor leg' := by
  cases goes with
  | along more =>
      refine ⟨on.anchor, on.span, ?_, more⟩
      have timer := Int32.le_iff_toInt_le.mp on.timer
      rw [Int32.le_iff_toInt_le]
      show _ ≤ (leg.timer + 1).toInt
      rw [on.toInt_next]
      omega
  | turn _ picks => exact on.anchor ▸ onLeg_begins picks leg.anchor

theorem Trail.onLeg {leg : Leg α} (trail : Trail i anchor k calls leg) : OnLeg anchor leg := by
  induction trail with
  | first picks => exact onLeg_begins picks anchor
  | tick _ goes ih => exact goes.onLeg ih

/-! ### The ticks tell how many legs there have been

All legs of a walk near its anchor have the same span, which makes the number of those
that are over a division.  `Wandered` carries the remainder along: it is the counter of
the leg.
-/

/-- The two draws for a target near the anchor, with what has come of them. -/
def drawsNear (i : Instruction Kind α) (picked : α × α) : List (HostCall α) :=
  [.uniform 0.0 360.0 picked.1, .uniform 0.0 (Scalar.abs i.first) picked.2]

/-- The draws that make up `calls` are those for `n` targets near the anchor, and there are no other
calls. -/
def DrawsNear (i : Instruction Kind α) (n : Nat) (calls : List (HostCall α)) : Prop :=
  ∃ picked : List (α × α), picked.length = n ∧ calls = picked.flatMap (drawsNear i)

theorem DrawsNear.more {n m : Nat} {more : List (HostCall α)} (draws : DrawsNear i n calls)
    (others : DrawsNear i m more) : DrawsNear i (n + m) (calls ++ more) := by
  obtain ⟨picked, rfl, rfl⟩ := draws
  obtain ⟨others, rfl, rfl⟩ := others
  exact ⟨picked ++ others, List.length_append, List.flatMap_append.symm⟩

theorem Picks.drawsNear (picks : Picks i anchor departure drawn target span)
    (kind : i.kind = .wander) : span = max i.count 1 ∧ DrawsNear i 1 drawn := by
  cases picks with
  | near _ heading distance => exact ⟨rfl, [(heading, distance)], rfl, rfl⟩
  | inBox patrols _ _ => cases kind.symm.trans patrols

/-- After `k` ticks, some legs of a walk near its anchor are over, and the present one has begun. -/
structure Wandered (i : Instruction Kind α) (k : Nat) (calls : List (HostCall α)) (leg : Leg α) :
    Prop where
  span : leg.span = max i.count 1
  legs : ∃ past : Nat, k = (max i.count 1).toNatClampNeg * past + leg.timer.toNatClampNeg ∧
    DrawsNear i (1 + past) calls

theorem Trail.wandered {leg : Leg α} (trail : Trail i anchor k calls leg) (kind : i.kind = .wander) :
    Wandered i k calls leg := by
  induction trail with
  | first picks =>
      obtain ⟨span, draws⟩ := picks.drawsNear kind
      exact ⟨span, 0, rfl, draws⟩
  | @tick k calls drawn leg leg' before goes ih =>
      have on := before.onLeg
      have next := on.toInt_next
      have timer := Int32.le_iff_toInt_le.mp on.timer
      have within := Int32.lt_iff_toInt_lt.mp on.within
      obtain ⟨span, past, hk, draws⟩ := ih
      rw [Int32.toInt_zero] at timer
      rw [span] at within
      cases goes with
      | along more =>
          refine ⟨span, past, ?_, by rwa [List.append_nil]⟩
          show k + 1 = _ + (leg.timer + 1).toNatClampNeg
          unfold Int32.toNatClampNeg at hk ⊢
          omega
      | turn arrived picks =>
          obtain ⟨span', draws'⟩ := picks.drawsNear kind
          refine ⟨span', past + 1, ?_, by simpa [Nat.add_assoc] using draws.more draws'⟩
          have arrived := Int32.le_iff_toInt_le.mp arrived
          rw [span] at arrived
          show k + 1 = _ * (past + 1) + (0 : Int32).toNatClampNeg
          rw [Nat.mul_succ, hk]
          unfold Int32.toNatClampNeg
          rw [Int32.toInt_zero]
          omega

/-- How many legs there have been is told by the ticks. -/
theorem Trail.drawsNear {leg : Leg α} (trail : Trail i anchor k calls leg)
    (kind : i.kind = .wander) :
    DrawsNear i (1 + k / (max i.count 1).toNatClampNeg) calls := by
  obtain ⟨span, past, hk, draws⟩ := trail.wandered kind
  have within := Int32.lt_iff_toInt_lt.mp trail.onLeg.within
  have positive := Int32.le_iff_toInt_le.mp trail.onLeg.span
  have below : leg.timer.toNatClampNeg < (max i.count 1).toNatClampNeg := by
    rw [span] at within positive
    rw [Int32.toInt_one] at positive
    unfold Int32.toNatClampNeg
    omega
  rw [hk, Nat.mul_add_div (Nat.zero_lt_of_lt below), Nat.div_eq_of_lt below]
  exact draws

/-! ### One tick of a walk is one tick on a leg

Both ways to choose a leg draw two numbers and make a leg of them, or crash on a draw.
They are brought into that form once, and after that the two kinds of walks need not be
told apart.
-/

variable {host : Host α η} {given left : Option (Scratch α)} {b b' : Body α}
  {s s' : η × List (HostCall α)} {h h' : η} {e : Crash}

theorem Kind.roams_iff {kind : Kind} : kind.roams = true ↔ kind = .wander ∨ kind = .patrol := by
  cases kind <;> simp [roams]

/-- The host has crashed on a draw. -/
def Breaks (host : Host α η) (e : Crash) : Prop :=
  ∃ low high h, host.uniform low high h = .error e

theorem breaks_of_draw {low high : α} (hdraw : host.recorded.uniform low high s = .error e) :
    Breaks host e := by
  rcases bind_eq_error.mp hdraw with broken | ⟨_, _, hdraw⟩
  · exact ⟨low, high, s.1, broken⟩
  · cases hdraw

/-- Two draws one after the other, of which something is made. -/
def drawTwo {β : Type} (host : Host α η) (low high low' high' : α) (make : α → α → β) (h : η) :
    Except Crash (β × η) := do
  let (x, h) ← host.uniform low high h
  let (y, h) ← host.uniform low' high' h
  return (make x y, h)

theorem drawTwo_eq_ok {β : Type} {low high low' high' : α} {make : α → α → β} {made : β}
    (hdraw : drawTwo host.recorded low high low' high' make s = .ok (made, s')) :
    ∃ x y, made = make x y ∧ s'.2 = s.2 ++ [.uniform low high x, .uniform low' high' y] := by
  obtain ⟨⟨x, s₁⟩, first, hdraw⟩ := bind_eq_ok.mp hdraw
  obtain ⟨⟨y, s₂⟩, second, hdraw⟩ := bind_eq_ok.mp hdraw
  cases hdraw
  refine ⟨x, y, rfl, ?_⟩
  rw [Host.recorded_uniform second, Host.recorded_uniform first, List.append_assoc]
  rfl

theorem breaks_of_drawTwo {β : Type} {low high low' high' : α} {make : α → α → β}
    (hdraw : drawTwo host.recorded low high low' high' make s = .error e) : Breaks host e := by
  rcases bind_eq_error.mp hdraw with broken | ⟨_, _, hdraw⟩
  · exact breaks_of_draw broken
  · rcases bind_eq_error.mp hdraw with broken | ⟨_, _, hdraw⟩
    · exact breaks_of_draw broken
    · cases hdraw

theorem chooseNear_eq (host : Host α η) (radius : α) (span : Int32) (anchor departure : Vec2 α) :
    chooseNear host radius span anchor departure =
      drawTwo host 0.0 360.0 0.0 radius fun heading distance =>
        (anchor + Angle.direction heading * distance, span) :=
  rfl

theorem chooseInBox_eq (host : Host α η) (half : Vec2 α) (speed : α) (anchor departure : Vec2 α) :
    chooseInBox host half speed anchor departure =
      drawTwo host (-half.x) half.x (-half.y) half.y fun x y =>
        (anchor + ⟨x, y⟩, legTicks (departure.distance (anchor + ⟨x, y⟩)) speed) :=
  rfl

theorem Kind.remembers_leg {kind : Kind} : kind.variant? = some .leg ↔ kind.roams = true := by
  cases kind <;> simp [roams, variant?]

theorem picks_of_choice (roams : i.kind.roams = true)
    (hchoice : choice host.recorded i anchor departure s = .ok ((target, span), s')) :
    ∃ drawn, s'.2 = s.2 ++ drawn ∧ Picks i anchor departure drawn target span := by
  unfold choice at hchoice
  rcases Kind.roams_iff.mp roams with kind | kind <;> simp only [kind] at hchoice
  · rw [chooseNear_eq] at hchoice
    obtain ⟨heading, distance, picked, made⟩ := drawTwo_eq_ok hchoice
    cases picked
    exact ⟨_, made, .near kind heading distance⟩
  · rw [chooseInBox_eq] at hchoice
    obtain ⟨x, y, picked, made⟩ := drawTwo_eq_ok hchoice
    cases picked
    exact ⟨_, made, .inBox kind x y⟩

theorem breaks_of_choice (roams : i.kind.roams = true)
    (hchoice : choice host.recorded i anchor departure s = .error e) : Breaks host e := by
  unfold choice at hchoice
  rcases Kind.roams_iff.mp roams with kind | kind <;> simp only [kind] at hchoice
  · rw [chooseNear_eq] at hchoice
    exact breaks_of_drawTwo hchoice
  · rw [chooseInBox_eq] at hchoice
    exact breaks_of_drawTwo hchoice

theorem walk_goes (roams : i.kind.roams = true)
    (hwalk : walk (choice host.recorded i) given b s = .ok (left, b', s')) :
    ∃ leg s₁ drawn leg', currentLeg (choice host.recorded i) given b.position s = .ok (leg, s₁) ∧
      Goes i leg drawn leg' ∧ s'.2 = s₁.2 ++ drawn ∧ left = some (.leg leg') ∧
      b' = { b with position := ahead leg } := by
  obtain ⟨leg, s₁, hcurrent, rfl, ⟨arrived, target, span, hnext, rfl⟩ | ⟨more, rfl, rfl⟩⟩ :=
    walk_cases hwalk
  · obtain ⟨drawn, made, picks⟩ := picks_of_choice roams hnext
    exact ⟨leg, s₁, drawn, _, hcurrent, .turn arrived picks, made, rfl, rfl⟩
  · exact ⟨leg, s', [], _, hcurrent, .along more, (List.append_nil _).symm, rfl, rfl⟩

theorem breaks_of_walk (roams : i.kind.roams = true)
    (hwalk : walk (choice host.recorded i) given b s = .error e) : Breaks host e := by
  obtain ⟨anchor, departure, s₁, hchoice⟩ := walk_eq_error hwalk
  exact breaks_of_choice roams hchoice

theorem tick_roams (roams : i.kind.roams = true) (frame : Int32) (fraction : α) :
    tick host i frame fraction given b h = walk (choice host i) given b h := by
  unfold tick choice
  rcases Kind.roams_iff.mp roams with kind | kind <;> simp only [kind]

theorem conclude_roams (roams : i.kind.roams = true) : conclude host i given b = b := by
  unfold conclude
  rcases Kind.roams_iff.mp roams with kind | kind <;> simp only [kind]

/-! ### Every occurrence follows a trail

The leg is kept in the scratch from one tick to the next, so the owner of the enemy
cannot change it; all that the host and the owner decide is what is drawn.  The trail is
found by induction on the ticks of the occurrence, with the calls of the ticks before as
its index.
-/

variable {p : Program Kind α} {entry : Body α} {t : Pulse Kind α (Body α × η)}

/-- One tick of a random walk is one tick on a leg. -/
theorem walk_of_timed (roams : i.kind.roams = true) {frame duration : Int32} {fraction : α}
    {answer : Hold} (call : (interpreter host).timed i (.run frame duration fraction) given (b, h)
      = .ok (answer, left, b', h')) : walk (choice host i) given b h = .ok (left, b', h') := by
  obtain ⟨state, htick, hpending⟩ := bind_eq_ok.mp call
  cases hpending
  rwa [tick_roams roams] at htick

/-- The leg on which a tick of an occurrence takes the enemy. -/
theorem trail_of_asks (roams : i.kind.roams = true)
    (asks : steering.Asks p i entry host k t calls) :
    ∀ {leg s₁}, currentLeg (choice host.recorded i) t.kept t.state.1.position (t.state.2, [])
      = .ok (leg, s₁) → Trail i entry.position k (calls ++ s₁.2) leg := by
  induction asks with
  | enter comes first found =>
      intro leg s₁ hcurrent
      rw [comes.sound.kept_first first] at hcurrent
      obtain ⟨⟨⟨target, span⟩, s₂⟩, hchoice, hcurrent⟩ := bind_eq_ok.mp hcurrent
      cases hcurrent
      obtain ⟨drawn, made, picks⟩ := picks_of_choice roams hchoice
      rw [found] at picks ⊢
      rw [made]
      exact .first picks
  | @again _ _ host₀ host k t₀ c x₁ x h₁ h calls asked before hstep comes ih =>
      intro leg s₁ hcurrent
      have run : t₀.unheard.Runs i := ⟨before.comes.run.here, before.comes.run.allowed⟩
      obtain ⟨-, left, call, rfl⟩ := Pulse.suspended_of_step run hstep
      obtain ⟨on, s₂, drawn, leg', hon, goes, made, rfl, -⟩ :=
        walk_goes roams (walk_of_timed roams call)
      -- the leg that this tick finds is the one that the tick before has left
      have kept : (Pulse.ofCursor (t₀.cursor.taken.held (some (.leg leg'))) (x, h)).kept
          = some (.leg leg') := Steering.scratch_held before.comes.sound
      have kept' : (Pulse.ofCursor (t₀.unheard.cursor.taken.held (some (.leg leg'))) (x, h)).kept
          = some (.leg leg') := kept
      rw [kept'] at hcurrent
      cases hcurrent
      have made : asked = s₂.2 ++ drawn := made
      rw [List.append_nil, made, ← List.append_assoc]
      exact .tick (ih hon) goes

/-- After the first tick of an occurrence there is a leg that has been begun. -/
theorem leg_of_asks (roams : i.kind.roams = true) (asks : steering.Asks p i entry host k t calls)
    (later : t.cursor.frame ≠ 0) :
    ∃ leg, t.kept = some (.leg leg) ∧ Trail i entry.position k calls leg := by
  have typed : t.kept.map Scratch.variant = some .leg :=
    (asks.comes.remembers recalls i asks.comes.run.here later).trans (Kind.remembers_leg.mpr roams)
  obtain ⟨value, hkept, hvalue⟩ := Option.map_eq_some_iff.mp typed
  cases value <;> cases hvalue
  case leg leg =>
    have current : currentLeg (choice host.recorded i) t.kept t.state.1.position (t.state.2, [])
        = .ok (leg, t.state.2, []) := by rw [hkept]; rfl
    have trail := trail_of_asks roams asks current
    rw [List.append_nil] at trail
    exact ⟨leg, hkept, trail⟩

/-- What a tick of an occurrence of a random walk comes to, after `k` others that have asked for
`calls`: it takes the enemy along its leg and leaves the leg for the next tick, or, if the span is
over, it leaves everything as it is and goes on with the next instruction. -/
inductive Walked (host : Host α η) (i : Instruction Kind α) (entry : Body α) (k : Nat)
    (t : Pulse Kind α (Body α × η)) (calls : List (HostCall α)) :
    Except Crash (Step Kind α (Body α × η × List (HostCall α))) → Prop
  | moves (more : k < i.duration.toNatClampNeg) {begun drawn : List (HostCall α)} {leg leg' : Leg α}
      (on : Trail i entry.position k (calls ++ begun) leg) (goes : Goes i leg drawn leg')
      {c : Cursor Kind α} (stored : c.scratch[c.ip]? = some (.leg leg')) (h : η) :
      Walked host i entry k t calls
        (.ok (.done true c ({ t.state.1 with position := ahead leg }, h, begun ++ drawn)))
  | rests (ended : k = i.duration.toNatClampNeg)
      (budget : i.kind = .wander →
        DrawsNear i (if k = 0 then 0 else 1 + k / (max i.count 1).toNatClampNeg) calls)
      {c : Cursor Kind α} (idle : c.Idle) :
      Walked host i entry k t calls (.ok (.next (.ofCursor c (t.state.1, t.state.2, []))))
  | crashes (more : k < i.duration.toNatClampNeg) {e : Crash} (breaks : Breaks host e) :
      Walked host i entry k t calls (.error e)

theorem walked (roams : i.kind.roams = true) (asks : steering.Asks p i entry host k t calls) :
    Walked host i entry k t calls (t.unheard.step (interpreter host.recorded)) := by
  have comes := asks.comes
  have run : t.unheard.Runs i := ⟨comes.run.here, comes.run.allowed⟩
  have timed : i.flow = .timed := by
    show i.kind.flow = .timed
    rcases Kind.roams_iff.mp roams with kind | kind <;> rw [kind] <;> rfl
  have stands := (asks.occurs recordable).stands recalls capturesByKind
  have frame : t.unheard.cursor.frame = frameAt k := stands.frame
  by_cases more : k < i.duration.toNatClampNeg
  · have hold : t.unheard.Holds i :=
      (Pulse.holds_iff_of_frame frame (Or.inl timed)).mpr fun _ => more
    have call : ∀ frame fraction, (interpreter host.recorded).timed i
        (.run frame i.duration fraction) t.unheard.kept t.unheard.state = (do
          let state ← walk (choice host.recorded i) t.kept t.state.1 (t.state.2, [])
          return (.pending, state)) := by
      intro frame fraction
      rw [← tick_roams roams frame fraction]
      rfl
    rw [Pulse.step_hold run hold, call]
    cases hwalk : walk (choice host.recorded i) t.kept t.state.1 (t.state.2, []) with
    | error e => exact .crashes more (breaks_of_walk roams hwalk)
    | ok result =>
        obtain ⟨left, b', h', asked⟩ := result
        obtain ⟨leg, s₁, drawn, leg', hcurrent, goes, made, rfl, rfl⟩ := walk_goes roams hwalk
        obtain rfl : asked = s₁.2 ++ drawn := made
        exact .moves more (trail_of_asks roams asks hcurrent) goes
          (Steering.scratch_held comes.sound) h'
  · have ended : i.duration ≤ t.unheard.cursor.frame := by
      rw [frame, ← Int32.not_lt, frameAt_lt]
      exact more
    have timely := stands.timely timed
    rw [Pulse.step_finish run timed ended]
    show Walked host i entry k t calls (.ok (.next (.ofCursor t.cursor.advance
      (conclude host.recorded i t.kept t.state.1, t.state.2, []))))
    rw [conclude_roams roams]
    refine .rests (by omega) (fun kind => ?_) (Cursor.advance_idle comes.sound.resting)
    by_cases hk : k = 0
    · rw [if_pos hk]
      subst hk
      cases asks with
      | enter _ _ _ => exact ⟨[], rfl, rfl⟩
    · rw [if_neg hk]
      obtain ⟨leg, -, trail⟩ := leg_of_asks roams asks (stands.frame ▸ frameAt_ne_zero hk)
      exact trail.drawsNear kind

/-- Every leg that is ever remembered has begun and is not over. -/
theorem onLeg_of_leads {c : Cursor Kind α} {a : Nat} {leg : Leg α} (led : steering.Leads p c)
    (kept : c.scratch[a]? = some (.leg leg)) : ∃ anchor, OnLeg anchor leg := by
  obtain ⟨rfl, begun, i, η, host, x, h, comes⟩ := led.comes kept
  obtain ⟨entry, k, occurs⟩ := comes.occurs
  obtain ⟨calls, asks⟩ := occurs.asks recordable
  have roams : i.kind.roams = true := by
    have typed := comes.remembers recalls i comes.run.here begun
    rw [show (Pulse.ofCursor c (x, h)).cursor.scratch[(Pulse.ofCursor c (x, h)).cursor.ip]? = _
      from kept] at typed
    exact Kind.remembers_leg.mp typed.symm
  obtain ⟨leg', hkept, trail⟩ := leg_of_asks roams asks begun
  cases kept.symm.trans hkept
  exact ⟨_, trail.onLeg⟩

/-- What holds of every occurrence of a random walk. -/
structure KeepsLegs (i : Instruction Kind α) : Prop where
  /-- Wherever a run comes to it, that is a tick of an occurrence, or the end of one. -/
  occurs : ∀ {η : Type} {p} {host : Host α η} {t}, steering.Comes p i host t →
    ∃ entry k calls, steering.Asks p i entry host k t calls
  /-- There it does what the trail says. -/
  walked : ∀ {η : Type} {p} {host : Host α η} {entry k t calls},
    steering.Asks p i entry host k t calls →
      Walked host i entry k t calls (t.unheard.step (interpreter host.recorded))
  /-- The leg on which it is then begins where the first tick has found the enemy, or where the leg
  before it has led, and is not over. -/
  kept : ∀ {η : Type} {p} {host : Host α η} {entry k t calls},
    steering.Asks p i entry host k t calls → t.cursor.frame ≠ 0 →
      ∃ leg, t.kept = some (.leg leg) ∧ Trail i entry.position k calls leg ∧
        OnLeg entry.position leg
  /-- The host is asked for the same when nothing is written down. -/
  unheard : ∀ {η : Type} (host : Host α η) (t : Pulse Kind α (Body α × η)),
    t.step (interpreter host) = Step.view unrecorded <$> t.unheard.step (interpreter host.recorded)

/--
**Random walks keep to their legs.**  Whatever the program, the hosts and what the owner
does to the enemy between the ticks, a leg that is remembered has a tick left: its timer is
not negative and less than its span.  All legs of an occurrence are around the position
that its first tick has found; the first starts there and each of the others where the
one before has led.  When the span is over, a walk near its anchor has drawn a heading and
a distance for one target at the start and for one more whenever its count of ticks was
over, and has asked for nothing else; a walk of no ticks draws nothing and does not move.
-/
theorem walks_keepLegs :
    (∀ (p : Program Kind α) c, steering.Leads p c → ∀ (a : Nat) leg,
      c.scratch[a]? = some (.leg leg) → 1 ≤ leg.span ∧ 0 ≤ leg.timer ∧ leg.timer < leg.span) ∧
      ∀ i : Instruction Kind α, i.kind.roams = true → KeepsLegs i := by
  constructor
  · intro p c led a leg kept
    obtain ⟨anchor, on⟩ := onLeg_of_leads led kept
    exact ⟨on.span, on.timer, on.within⟩
  · intro i roams
    exact {
      occurs := by
        intro η p host t comes
        obtain ⟨entry, k, occurs⟩ := comes.occurs
        obtain ⟨calls, asks⟩ := occurs.asks recordable
        exact ⟨entry, k, calls, asks⟩
      walked := walked roams
      kept := by
        intro η p host entry k t calls asks later
        obtain ⟨leg, kept, trail⟩ := leg_of_asks roams asks later
        exact ⟨leg, kept, trail, trail.onLeg⟩
      unheard := recordable.step }

/-- An enemy that wanders for one tick, at the end of which it has gone for two targets. -/
def stroller : Program Kind Float32 :=
  .ofInstructions [Command.wander 5.0 1 1]

theorem walks_keepLegs_stroller :
    let host := Recorder.host ⟨.empty, fun _ _ => none, fun _ => none, none⟩ true
    let stroll := Command.wander (5.0 : Float32) 1 1
    ∃ entry t calls c leg, steering.Asks stroller stroll entry host 1 t calls ∧
      entry.position = ⟨192.0, 32.0⟩ ∧ t.state.1.position = .zero ∧
      t.kept = some (.leg leg) ∧ leg.anchor = ⟨192.0, 32.0⟩ ∧ leg.timer < leg.span ∧
      DrawsNear stroll 2 calls ∧
      t.unheard.step (interpreter host.recorded)
        = .ok (.next (.ofCursor c (t.state.1, t.state.2, []))) := by
  intro host stroll
  let r := Recorder.ofChance (.scripted #[0.5] 0)
  let b : Body Float32 := .ofPosition ⟨192.0, 32.0⟩
  let t : Pulse Kind Float32 _ := .ofCursor (.ofProgram stroller) (b, r)
  have comes : steering.Comes stroller stroll host t := ⟨.start, rfl, .start, rfl, by decide⟩
  obtain ⟨c, b', r', asked, hu, hstep, unfinished, begun⟩ : ∃ c b' r' asked,
      update host (.ofProgram stroller) b r = .ok (true, c, b', r') ∧
        t.unheard.step (interpreter host.recorded) = .ok (.done true c (b', r', asked)) ∧
        c.finished = false ∧ c.frame ≠ 0 :=
    ⟨_, _, _, _, rfl, rfl, rfl, by decide⟩
  -- the owner puts the enemy into a corner
  let x : Body Float32 := { b' with position := .zero }
  have plain : t.step (interpreter host) = .ok (.done true c (b', r')) :=
    recordable.step_eq_done.mpr ⟨asked, hstep⟩
  have comes' : steering.Comes stroller stroll host (.ofCursor c (x, r')) :=
    ⟨.tick .start hu, unfinished, .start, comes.run.again plain _⟩
  have asks : steering.Asks stroller stroll b host 1 (.ofCursor c (x, r')) ([] ++ asked) :=
    .again (.enter comes rfl rfl) hstep comes'
  have keeps := walks_keepLegs.2 stroll rfl
  obtain ⟨leg, kept, -, on⟩ := keeps.kept asks begun
  have walked := keeps.walked asks
  generalize hlast : Pulse.step (interpreter host.recorded) _ = o at walked
  cases walked with
  | moves more _ _ _ _ => exact absurd more (by decide)
  | crashes more _ => exact absurd more (by decide)
  | rests _ budget _ =>
      have targets : 1 + 1 / (max (1 : Int32) 1).toNatClampNeg = 2 := by decide
      have draws : DrawsNear stroll (1 + 1 / (max (1 : Int32) 1).toNatClampNeg) _ := budget rfl
      rw [targets] at draws
      exact ⟨b, _, _, _, leg, asks, rfl, rfl, kept, on.anchor, on.within, draws, hlast⟩

end Barrage.Enemy
