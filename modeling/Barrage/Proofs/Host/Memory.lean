/-
What instructions remember is of the type that belongs to their kind.

A handler that finds nothing remembered, or something of a foreign type, takes the present
number or position for the one it has started from, and says nothing about it.  So an
error of the dispatch loop here would never show as an error.  Two things are needed
that there is none: a handler that holds its instruction leaves what its kind
remembers, which is `Steering.Recalls`, and the dispatch loop hands exactly that back
on the next tick, be it one more of the span or its end.

The three vocabularies have this in common, so it is proved once, for any `Steering`:
the way in which scripts of a vocabulary are run for their actor.  `Steering.Leads` are
the scripts that ticks lead to, with any host in each of them and with whatever the
owner has done to the actor in between.
-/
import Barrage.Host.Recorder
import Barrage.Proofs.Host.Keeps

namespace Barrage

/-- The types of what an instruction remembers. -/
inductive Scratch.Variant where
  | start
  | origin
  | wave
  | leg
  | raised
  deriving DecidableEq

variable {κ α τ η : Type}

namespace Scratch

def variant : Scratch α → Variant
  | start _ => .start
  | origin _ => .origin
  | wave _ => .wave
  | leg _ => .leg
  | raised => .raised

variable {given : Option (Scratch α)}

theorem eq_start_of_variant (h : given.map variant = some .start) :
    ∃ v, given = some (.start v) := by
  obtain ⟨s, rfl, hs⟩ := Option.map_eq_some_iff.mp h
  cases s <;> cases hs
  exact ⟨_, rfl⟩

theorem eq_origin_of_variant (h : given.map variant = some .origin) :
    ∃ v, given = some (.origin v) := by
  obtain ⟨s, rfl, hs⟩ := Option.map_eq_some_iff.mp h
  cases s <;> cases hs
  exact ⟨_, rfl⟩

theorem eq_wave_of_variant (h : given.map variant = some .wave) : ∃ v, given = some (.wave v) := by
  obtain ⟨s, rfl, hs⟩ := Option.map_eq_some_iff.mp h
  cases s <;> cases hs
  exact ⟨_, rfl⟩

theorem eq_raised_of_variant (h : given.map variant = some .raised) : given = some .raised := by
  obtain ⟨s, rfl, hs⟩ := Option.map_eq_some_iff.mp h
  cases s <;> cases hs
  rfl

end Scratch

variable [Vocabulary κ] [Scalar α]

/-! ### What the three vocabularies have in common

A `Steering` has for each instruction what it remembers and what a first tick captures,
and how a tick is run.  The owner does not show in it: `Leads` lets every tick begin
with an actor of its own, which is more than any owner can do.
-/

/-- How the scripts of a vocabulary are run for their actor, and what its kinds remember. -/
structure Steering (κ α τ : Type) [Vocabulary κ] [Scalar α] where
  interpreter : ∀ {η : Type}, Host α η → Interpreter κ α (τ × η)
  /-- One tick of a script and its actor. -/
  update : ∀ {η : Type}, Host α η → Cursor κ α → τ → η → Except Crash (Bool × Cursor κ α × τ × η)
  /-- The tick leaves the script and the actor as the dispatch loop does. -/
  runs : ∀ {η : Type} {host : Host α η} {c c' : Cursor κ α} {x x' : τ} {h h' : η} {running : Bool},
    update host c x h = .ok (running, c', x', h') →
      ∃ h₁, c.update (interpreter host) (x, h) = .ok (running, c', x', h₁)
  /-- The type of what a kind remembers while it is held, if it remembers anything. -/
  variant? : κ → Option Scratch.Variant
  /-- What the first tick of a span captures for all of it, if it captures anything. -/
  captured? : Instruction κ α → τ → Option (Scratch α)

namespace Steering

variable (s : Steering κ α τ) {host : Host α η} {p : Program κ α} {c c' : Cursor κ α} {x x' : τ}
  {h h' : η} {running : Bool} {t t' : Pulse κ α (τ × η)} {i : Instruction κ α}

/-- The scripts that ticks lead to from the start of a program, with any host and any actor in each
of them. -/
inductive Leads (p : Program κ α) : Cursor κ α → Prop
  | start : Leads p (.ofProgram p)
  | tick {η : Type} {host : Host α η} {c c' : Cursor κ α} {x x' : τ} {h h' : η} {running : Bool}
      (led : Leads p c) (hu : s.update host c x h = .ok (running, c', x', h')) : Leads p c'

/-- A handler that holds its instruction leaves what the kind remembers.  What it has captured it
leaves as it was. -/
structure Recalls : Prop where
  begins : ∀ {η : Type} (host : Host α η) {i frame duration fraction x h left state},
    (s.interpreter host).timed i (.run frame duration fraction) none (x, h)
        = .ok (.pending, left, state) →
      left.map Scratch.variant = s.variant? i.kind ∧
        ∀ value, s.captured? i x = some value → left = some value
  goesOn : ∀ {η : Type} (host : Host α η) {i frame duration fraction given x h left state},
    given.map Scratch.variant = s.variant? i.kind →
    (s.interpreter host).timed i (.run frame duration fraction) given (x, h)
        = .ok (.pending, left, state) →
      left.map Scratch.variant = s.variant? i.kind ∧
        ((s.captured? i x).isSome → left = given)

/-- The instruction that the script waits on remembers what its kind does. -/
def Remembers (c : Cursor κ α) : Prop :=
  ∀ i, c.program.get? c.ip = some i → c.frame ≠ 0 →
    (c.scratch[c.ip]?).map Scratch.variant = s.variant? i.kind

/-- What is remembered when the dispatch loop comes to an instruction. -/
structure Finds (host : Host α η) (t : Pulse κ α (τ × η)) (i : Instruction κ α) : Prop where
  /-- Nothing is remembered for any other instruction. -/
  alone : ∀ a : Nat, a ≠ t.cursor.ip → t.cursor.scratch[a]? = none
  /-- On the first tick of a span nothing is found. -/
  first : t.cursor.frame = 0 → t.kept = none
  /-- On every later one, and at the end of the span, what the kind remembers. -/
  later : t.cursor.frame ≠ 0 → t.kept.map Scratch.variant = s.variant? i.kind
  /-- The first tick captures what there is to capture. -/
  captures : t.cursor.frame = 0 → ∀ value, s.captured? i t.state.1 = some value →
    ∀ c' state, t.step (s.interpreter host) = .ok (.done true c' state) →
      c'.scratch[c'.ip]? = some value
  /-- The later ones leave it as it was. -/
  keeps : t.cursor.frame ≠ 0 → (s.captured? i t.state.1).isSome →
    ∀ c' state, t.step (s.interpreter host) = .ok (.done true c' state) →
      c'.scratch[c'.ip]? = t.kept

/-- A script of `p` between two ticks, with everything that it remembers of the right type. -/
structure WellTyped (p : Program κ α) (c : Cursor κ α) : Prop where
  held : ∀ (a : Nat) value, c.scratch[a]? = some value →
    ∃ i, p.get? a = some i ∧ s.variant? i.kind = some value.variant
  /-- A tick that suspends the script leaves what the instruction there remembers. -/
  suspends : ∀ {η : Type} (host : Host α η) x h c' x' h',
    s.update host c x h = .ok (true, c', x', h') →
      ∃ i, p.get? c'.ip = some i ∧ c'.frame ≠ 0 ∧
        (c'.scratch[c'.ip]?).map Scratch.variant = s.variant? i.kind
  /-- So does the dispatch loop find it, wherever a tick comes to. -/
  finds : ∀ {η : Type} (host : Host α η) x h t i, c.finished = false →
    (Pulse.ofCursor c (x, h)).Within (s.interpreter host) t → t.Runs i → s.Finds host t i

variable {s}

theorem Leads.reachable (led : s.Leads p c) : c.Reachable p := by
  induction led with
  | start => exact .start
  | tick _ hu ih =>
      obtain ⟨h₁, hscript⟩ := s.runs hu
      exact .update ih hscript

/-- A tick that is completed ends with a step from one of its points. -/
theorem Leads.last (led : s.Leads p c) (unfinished : c.finished = false)
    (hu : s.update host c x h = .ok (running, c', x', h')) :
    ∃ t h₁, (Pulse.ofCursor c (x, h)).Within (s.interpreter host) t ∧
      t.step (s.interpreter host) = .ok (.done running c' (x', h₁)) := by
  obtain ⟨h₁, hscript⟩ := s.runs hu
  obtain ⟨n, takes⟩ := led.reachable.takes unfinished (s.interpreter host) (x, h)
  rw [hscript] at takes
  obtain ⟨t, hwithin, hlast⟩ := takes.within
  exact ⟨t, h₁, hwithin, hlast⟩

/-! ### At every point of a tick the right thing is remembered

Only an instruction that holds leaves something, and it leaves it for itself.  The step
that suspends the script is therefore the only one for which anything has to be shown of
a handler.
-/

theorem remembers_of_idle (idle : c.Idle) : s.Remembers c :=
  fun _ _ begun => absurd idle.frame begun

/-- What a held instruction has left is what it remembers. -/
theorem scratch_held {left : Option (Scratch α)} (sound : t.Sound) :
    (t.cursor.taken.held left).scratch[(t.cursor.taken.held left).ip]? = left := by
  have hscratch := Cursor.held_scratch sound.resting left t.cursor.ip
  rwa [if_pos rfl] at hscratch

/-- The step that suspends a script leaves what the kind remembers. -/
theorem Recalls.pending (recalls : s.Recalls) (sound : t.Sound) (remembers : s.Remembers t.cursor)
    (run : t.Runs i) {left : Option (Scratch α)} {state : τ × η}
    (call : (s.interpreter host).timed i
      (.run t.cursor.frame i.duration (i.fraction t.cursor.frame)) t.kept t.state
        = .ok (.pending, left, state)) :
    left.map Scratch.variant = s.variant? i.kind ∧
      (t.cursor.frame = 0 → ∀ value, s.captured? i t.state.1 = some value → left = some value) ∧
      (t.cursor.frame ≠ 0 → (s.captured? i t.state.1).isSome → left = t.kept) := by
  by_cases hfirst : t.cursor.frame = 0
  · rw [sound.kept_first hfirst] at call
    obtain ⟨typed, captures⟩ := recalls.begins host call
    exact ⟨typed, fun _ => captures, fun begun => absurd hfirst begun⟩
  · obtain ⟨typed, keeps⟩ := recalls.goesOn host (remembers i run.here hfirst) call
    exact ⟨typed, fun first => absurd first hfirst, fun _ => keeps⟩

theorem Recalls.step (recalls : s.Recalls) (sound : t.Sound) (remembers : s.Remembers t.cursor)
    {state : τ × η} (hstep : t.step (s.interpreter host) = .ok (.done running c' state)) :
    s.Remembers c' := by
  have out := Pulse.outcome_of_step hstep
  cases running with
  | false =>
      cases out.settles sound with
      | ended _ idle => exact remembers_of_idle idle
  | true =>
      cases out with
      | pending run _ call =>
          intro j hj _
          obtain rfl : _ = j := Option.some.inj (run.here.symm.trans hj)
          rw [scratch_held sound]
          exact (recalls.pending sound remembers run call).1

/-- At every point of a tick the present instruction remembers what its kind does. -/
theorem Remembers.within (remembers : s.Remembers t.cursor) (sound : t.Sound)
    (hwithin : t.Within (s.interpreter host) t') : s.Remembers t'.cursor := by
  rcases hwithin.start_or_idle sound with rfl | idle
  · exact remembers
  · exact remembers_of_idle idle

theorem Recalls.finds (recalls : s.Recalls) (sound : t.Sound) (remembers : s.Remembers t.cursor)
    (run : t.Runs i) : s.Finds host t i := by
  have suspended : ∀ {c' : Cursor κ α} {state},
      t.step (s.interpreter host) = .ok (.done true c' state) → ∃ left,
        c'.scratch[c'.ip]? = left ∧
        (t.cursor.frame = 0 → ∀ value, s.captured? i t.state.1 = some value → left = some value) ∧
        (t.cursor.frame ≠ 0 → (s.captured? i t.state.1).isSome → left = t.kept) := by
    intro c' state hstep
    obtain ⟨-, left, call, rfl⟩ := Pulse.suspended_of_step run hstep
    exact ⟨left, scratch_held sound, (recalls.pending sound remembers run call).2⟩
  exact {
    alone := fun a ha => Cursor.scratch_of_rests sound.resting ha
    first := sound.kept_first
    later := remembers i run.here
    captures := by
      intro hfirst value hvalue c' state hstep
      obtain ⟨left, hleft, captures, -⟩ := suspended hstep
      exact hleft.trans (captures hfirst value hvalue)
    keeps := by
      intro hbegun hsome c' state hstep
      obtain ⟨left, hleft, -, keeps⟩ := suspended hstep
      exact hleft.trans (keeps hbegun hsome) }

/-! ### Between ticks -/

theorem Recalls.tick (recalls : s.Recalls) (led : s.Leads p c) (remembers : s.Remembers c)
    (hu : s.update host c x h = .ok (running, c', x', h')) : s.Remembers c' := by
  by_cases hfinished : c.finished = true
  · obtain ⟨h₁, hscript⟩ := s.runs hu
    rw [Cursor.update_finished hfinished] at hscript
    cases hscript
    exact remembers
  · have unfinished := Bool.eq_false_of_not_eq_true hfinished
    obtain ⟨t, h₁, hwithin, hlast⟩ := led.last unfinished hu
    have sound := led.reachable.ready.sound unfinished (x, h)
    exact recalls.step (hwithin.sound sound) (remembers.within sound hwithin) hlast

theorem Leads.remembers (recalls : s.Recalls) (led : s.Leads p c) : s.Remembers c := by
  induction led with
  | start => exact remembers_of_idle (Cursor.ofProgram_idle p)
  | tick led hu ih => exact recalls.tick led ih hu

theorem Leads.wellTyped (recalls : s.Recalls) (led : s.Leads p c) : s.WellTyped p c where
  held := by
    intro a value hvalue
    have rests := led.reachable.ready.rests
    rcases rests with idle | waits
    · exact absurd (hvalue.symm.trans (idle.scratch a)) (by simp)
    · have here : a = c.ip := by
        by_contra hne
        exact absurd (hvalue.symm.trans (waits.scratch a hne)) (by simp)
      subst here
      obtain ⟨i, hi, -⟩ := waits.here
      have begun : c.frame ≠ 0 := fun hzero => absurd (hzero ▸ waits.frame) (by decide)
      have typed := led.remembers recalls i hi begun
      rw [hvalue] at typed
      exact ⟨i, led.reachable.canReach.1 ▸ hi, typed.symm⟩
  suspends := by
    intro η host x h c' x' h' hu
    have led' : s.Leads p c' := .tick led hu
    obtain ⟨h₁, hscript⟩ := s.runs hu
    cases led.reachable.settles hscript with
    | waits _ _ waits =>
        obtain ⟨i, hi, -⟩ := waits.here
        have begun : c'.frame ≠ 0 := fun hzero => absurd (hzero ▸ waits.frame) (by decide)
        exact ⟨i, led'.reachable.canReach.1 ▸ hi, begun, led'.remembers recalls i hi begun⟩
  finds := by
    intro η host x h t i unfinished hwithin run
    have sound := led.reachable.ready.sound unfinished (x, h)
    have remembers : s.Remembers (Pulse.ofCursor c (x, h)).cursor := led.remembers recalls
    exact recalls.finds (hwithin.sound sound) (remembers.within sound hwithin) run

end Steering

/-! ### The kinds for bullets

Two cases for each kind that remembers something: the first tick, which captures it, and
the later ones, which give back what they are given.  The type of what they are given is
known by then from the invariant.
-/

namespace Bullet

/-- What the kinds for bullets remember. -/
def Kind.variant? : Kind → Option Scratch.Variant
  | .lerpSpeed | .lerpAngle | .zigzag => some .start
  | .wave => some .wave
  | .refire => some .raised
  | _ => none

/-- The number that is changed or swung, as it is before the first tick. -/
def captured? (i : Instruction Kind α) (m : Motion α) : Option (Scratch α) :=
  match i.kind with
  | .lerpSpeed => some (.start m.speed)
  | .lerpAngle | .zigzag => some (.start m.heading)
  | _ => none

def steering : Steering Kind α (Motion α) where
  interpreter := interpreter
  update := update
  runs hu := by
    obtain ⟨h₁, hscript, -⟩ := update_cases hu
    exact ⟨h₁, hscript⟩
  variant? := Kind.variant?
  captured? := captured?

variable {host : Host α η} {i : Instruction Kind α} {frame : Int32} {fraction : α}
  {given left : Option (Scratch α)} {m m' : Motion α}

theorem tick_begins (htick : tick host i frame fraction none m = .ok (.pending, left, m')) :
    left.map Scratch.variant = i.kind.variant? ∧
      ∀ value, captured? i m = some value → left = some value := by
  unfold tick at htick
  unfold captured?
  cases hkind : i.kind <;> simp only [hkind] at htick ⊢
  case wave | refire =>
    cases htick
    exact ⟨rfl, by simp⟩
  case home =>
    cases haim : host.headingToPlayer? m.position <;> simp only [haim] at htick
    · cases htick
      exact ⟨rfl, fun _ hvalue => hvalue⟩
    · obtain ⟨heading, -, htick⟩ := bind_eq_ok.mp htick
      cases htick
      exact ⟨rfl, fun _ hvalue => hvalue⟩
  all_goals
    cases htick
    exact ⟨rfl, fun _ hvalue => hvalue⟩

theorem tick_goesOn (typed : given.map Scratch.variant = i.kind.variant?)
    (htick : tick host i frame fraction given m = .ok (.pending, left, m')) :
    left.map Scratch.variant = i.kind.variant? ∧ ((captured? i m).isSome → left = given) := by
  unfold tick at htick
  unfold captured?
  cases hkind : i.kind <;> simp only [hkind] at htick typed ⊢
  case lerpSpeed | lerpAngle | zigzag =>
    obtain ⟨start, rfl⟩ := Scratch.eq_start_of_variant typed
    cases htick
    exact ⟨rfl, fun _ => rfl⟩
  case wave =>
    cases htick
    exact ⟨rfl, by simp⟩
  case refire =>
    obtain rfl := Scratch.eq_raised_of_variant typed
    unfold askAgain at htick
    split at htick
    · cases htick
      exact ⟨rfl, fun _ => rfl⟩
    · split at htick <;> cases htick
      exact ⟨rfl, fun _ => rfl⟩
  case home =>
    cases haim : host.headingToPlayer? m.position <;> simp only [haim] at htick
    · cases htick
      exact ⟨typed, fun _ => rfl⟩
    · obtain ⟨heading, -, htick⟩ := bind_eq_ok.mp htick
      cases htick
      exact ⟨typed, fun _ => rfl⟩
  all_goals
    cases htick
    exact ⟨typed, fun _ => rfl⟩

theorem recalls : (steering : Steering Kind α (Motion α)).Recalls where
  begins host := by
    intro i frame duration fraction m h left state hcall
    obtain ⟨⟨answer, left', m'⟩, htick, hcall⟩ := bind_eq_ok.mp hcall
    cases hcall
    exact tick_begins htick
  goesOn host := by
    intro i frame duration fraction given m h left state typed hcall
    obtain ⟨⟨answer, left', m'⟩, htick, hcall⟩ := bind_eq_ok.mp hcall
    cases hcall
    exact tick_goesOn typed htick

end Bullet

/-! ### The kinds for enemies

The walks are the only kinds whose later ticks leave something else than they were
given.  It is a leg all the same, so the type is kept and what was captured has nothing
to say about it.
-/

namespace Enemy

/-- What the kinds for enemies remember. -/
def Kind.variant? : Kind → Option Scratch.Variant
  | .moveTo | .moveBy | .oscillate => some .origin
  | .wander | .patrol => some .leg
  | _ => none

/-- Where a movement between two points starts, or what is swung around. -/
def captured? (i : Instruction Kind α) (b : Body α) : Option (Scratch α) :=
  match i.kind with
  | .moveTo | .moveBy | .oscillate => some (.origin b.position)
  | _ => none

def steering : Steering Kind α (Body α) where
  interpreter := interpreter
  update := update
  runs hu := by
    obtain ⟨h₁, hscript, -⟩ := update_cases hu
    exact ⟨h₁, hscript⟩
  variant? := Kind.variant?
  captured? := captured?

variable {host : Host α η} {i : Instruction Kind α} {frame : Int32} {fraction : α}
  {given left : Option (Scratch α)} {b b' : Body α} {h h' : η}

theorem walk_leaves_leg {choose : LegChoice α η}
    (hwalk : walk choose given b h = .ok (left, b', h')) :
    left.map Scratch.variant = some .leg := by
  obtain ⟨leg, h₁, -, -, ⟨-, target, span, -, rfl⟩ | ⟨-, -, rfl⟩⟩ := walk_cases hwalk
  · rfl
  · rfl

theorem tick_begins (htick : tick host i frame fraction none b h = .ok (left, b', h')) :
    left.map Scratch.variant = i.kind.variant? ∧
      ∀ value, captured? i b = some value → left = some value := by
  unfold tick at htick
  unfold captured?
  cases hkind : i.kind <;> simp only [hkind] at htick ⊢
  case wander | patrol => exact ⟨walk_leaves_leg htick, by simp⟩
  case home =>
    cases haim : host.headingToPlayer? b.position <;> simp only [haim] at htick <;>
      obtain ⟨angle, -, htick⟩ := bind_eq_ok.mp htick <;> cases htick <;>
      exact ⟨rfl, fun _ hvalue => hvalue⟩
  case followPath =>
    cases hpath : host.path? i.extra <;> simp only [hpath] at htick <;> cases htick <;>
      exact ⟨rfl, fun _ hvalue => hvalue⟩
  all_goals
    cases htick
    exact ⟨rfl, fun _ hvalue => hvalue⟩

theorem tick_goesOn (typed : given.map Scratch.variant = i.kind.variant?)
    (htick : tick host i frame fraction given b h = .ok (left, b', h')) :
    left.map Scratch.variant = i.kind.variant? ∧ ((captured? i b).isSome → left = given) := by
  unfold tick at htick
  unfold captured?
  cases hkind : i.kind <;> simp only [hkind] at htick typed ⊢
  case moveTo | moveBy | oscillate =>
    obtain ⟨origin, rfl⟩ := Scratch.eq_origin_of_variant typed
    cases htick
    exact ⟨rfl, fun _ => rfl⟩
  case wander | patrol => exact ⟨walk_leaves_leg htick, by simp⟩
  case home =>
    cases haim : host.headingToPlayer? b.position <;> simp only [haim] at htick <;>
      obtain ⟨angle, -, htick⟩ := bind_eq_ok.mp htick <;> cases htick <;>
      exact ⟨typed, fun _ => rfl⟩
  case followPath =>
    cases hpath : host.path? i.extra <;> simp only [hpath] at htick <;> cases htick <;>
      exact ⟨typed, fun _ => rfl⟩
  all_goals
    cases htick
    exact ⟨typed, fun _ => rfl⟩

theorem recalls : (steering : Steering Kind α (Body α)).Recalls where
  begins host := by
    intro i frame duration fraction b h left state hcall
    obtain ⟨state', htick, hcall⟩ := bind_eq_ok.mp hcall
    cases hcall
    exact tick_begins htick
  goesOn host := by
    intro i frame duration fraction given b h left state typed hcall
    obtain ⟨state', htick, hcall⟩ := bind_eq_ok.mp hcall
    cases hcall
    exact tick_goesOn typed htick

end Enemy

/-! ### The kinds for shots remember nothing -/

namespace Shot

/-- No kind for shots remembers anything. -/
def steering : Steering Kind α (Emitter α) where
  interpreter := interpreter
  update := update
  runs hu := ⟨_, hu⟩
  variant? _ := none
  captured? _ _ := none

theorem recalls : (steering : Steering Kind α (Emitter α)).Recalls where
  begins host := by
    intro i frame duration fraction e h left state hcall
    cases hcall
    exact ⟨rfl, by simp [steering]⟩
  goesOn host := by
    intro i frame duration fraction given e h left state typed hcall
    cases hcall
    exact ⟨typed, fun _ => rfl⟩

end Shot

/-! ### The three vocabularies -/

/--
**What scripts remember is well typed.**  Whatever the program, the hosts of its ticks
and what the owner does to the actor in between, a script remembers something only for
an instruction whose kind remembers, and of the type that belongs to the kind; and it
does so whenever it is suspended there.  So a handler finds what it has left, on every
tick of a span but the first and at the end of the span, and a number or position that
it has captured on the first is the same at all of them.
-/
theorem scratch_wellTyped :
    (∀ (p : Program Bullet.Kind α) c, Bullet.steering.Leads p c → Bullet.steering.WellTyped p c) ∧
      (∀ (p : Program Enemy.Kind α) c, Enemy.steering.Leads p c → Enemy.steering.WellTyped p c) ∧
      ∀ (p : Program Shot.Kind α) c, Shot.steering.Leads p c → Shot.steering.WellTyped p c :=
  ⟨fun _ _ led => led.wellTyped Bullet.recalls, fun _ _ led => led.wellTyped Enemy.recalls,
    fun _ _ led => led.wellTyped Shot.recalls⟩

/-- A bullet that swings around its heading. -/
def weaver : Program Bullet.Kind Float32 :=
  .ofInstructions [Bullet.Command.zigzag 30.0 2 4]

/-- An enemy that moves to the middle of the upper edge. -/
def climber : Program Enemy.Kind Float32 :=
  .ofInstructions [Enemy.Command.moveTo ⟨192.0, 0.0⟩ 2]

/-- A shot that does nothing for a while. -/
def pause : Program Shot.Kind Float32 :=
  .ofInstructions [.wait 3]

theorem scratch_wellTyped_begun :
    let host := Recorder.host ⟨.empty, fun _ _ => none, fun _ => none, none⟩ true
    let r := Recorder.ofChance (.scripted #[] 0)
    ∃ b m r₁ e body r₂ s emitter r₃,
      Bullet.update host (.ofProgram weaver) (.straight .zero 2.0 90.0) r = .ok (true, b, m, r₁) ∧
      b.scratch[0]? = some (.start 90.0) ∧ Bullet.steering.WellTyped weaver b ∧
      Enemy.update host (.ofProgram climber) (.ofPosition ⟨192.0, 32.0⟩) r
        = .ok (true, e, body, r₂) ∧
      e.scratch[0]? = some (.origin ⟨192.0, 32.0⟩) ∧ Enemy.steering.WellTyped climber e ∧
      Shot.update host (.ofProgram pause) (.ofOrigin .zero) r = .ok (true, s, emitter, r₃) ∧
      s.scratch[0]? = none ∧ Shot.steering.WellTyped pause s := by
  intro host r
  obtain ⟨b, m, r₁, hb, hstart⟩ : ∃ b m r₁,
      Bullet.update host (.ofProgram weaver) (.straight .zero 2.0 90.0) r = .ok (true, b, m, r₁) ∧
        b.scratch[0]? = some (.start 90.0) := ⟨_, _, _, rfl, rfl⟩
  obtain ⟨e, body, r₂, he, horigin⟩ : ∃ e body r₂,
      Enemy.update host (.ofProgram climber) (.ofPosition ⟨192.0, 32.0⟩) r
          = .ok (true, e, body, r₂) ∧
        e.scratch[0]? = some (.origin ⟨192.0, 32.0⟩) := ⟨_, _, _, rfl, rfl⟩
  obtain ⟨s, emitter, r₃, hs, hnone⟩ : ∃ s emitter r₃,
      Shot.update host (.ofProgram pause) (.ofOrigin .zero) r = .ok (true, s, emitter, r₃) ∧
        s.scratch[0]? = none := ⟨_, _, _, rfl, rfl⟩
  obtain ⟨bullets, enemies, shots⟩ := scratch_wellTyped (α := Float32)
  exact ⟨b, m, r₁, e, body, r₂, s, emitter, r₃, hb, hstart, bullets weaver b (.tick .start hb), he,
    horigin, enemies climber e (.tick .start he), hs, hnone, shots pause s (.tick .start hs)⟩

end Barrage
