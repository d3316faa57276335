/-
Which instructions may crash, and with what.

A script crashes in two ways only: by a turn that is limited by no number, and by a draw
between bounds that are too far apart.  Both can be read off the operands of an
instruction, which is `risk?`.  There is one draw that is not made by the instruction
that has its bounds: a volley is off by the jitter that an earlier instruction has set.
So for shots an invariant is needed, which says that this one is in the program.

What a host has to do with it is little.  It draws numbers as a generator does, or
refuses fewer of them, and it only changes the order of what it shuffles, so no volley
names a bullet that it does not have.
-/
import Barrage.Proofs.Shot.Volley
import Barrage.Proofs.Single.Partial

namespace Barrage

open Random.Generator (TooWide)

/-! ### What can be read off the operands

For each vocabulary the operands that end up as the limit of a turn or as the bounds of
a draw.  Nothing of a state is in it, so it can be evaluated for a whole library.
-/

/-- What becomes of a turn by at most `limit`, if it has no result. -/
def turnRisk (limit : Float32) : Option Crash :=
  if limit.isNaN then some .turnLimit else none

/-- What becomes of a draw between two bounds, if it has no result. -/
def drawRisk (low high : Float32) : Option Crash :=
  if TooWide low high then some .spanTooWide else none

/-- What becomes of a draw that is as far off to either side. -/
def jitterRisk (range : Float32) : Option Crash :=
  drawRisk (-range) range

namespace Bullet

/-- With what an instruction may crash. -/
def risk? (i : Instruction Kind Float32) : Option Crash :=
  match i.kind with
  | .jitter => jitterRisk (Scalar.abs i.first)
  | .home => turnRisk i.first
  | _ => none

end Bullet

namespace Enemy

/-- With what an instruction may crash. -/
def risk? (i : Instruction Kind Float32) : Option Crash :=
  match i.kind with
  | .home => turnRisk i.second
  | .wander => drawRisk 0.0 (Scalar.abs i.first)
  | .patrol => (jitterRisk i.vector.abs.x).or (jitterRisk i.vector.abs.y)
  | _ => none

end Enemy

namespace Shot

/-- With what an instruction, or a volley that it unsettles, may crash. -/
def risk? (i : Instruction Kind Float32) : Option Crash :=
  match i.kind with
  | .randomizeNext => jitterRisk (Scalar.abs i.first)
  | .fireSpreadRandom => jitterRisk (i.vector.y / 2.0)
  | _ => none

end Shot

/-- A host refuses to draw only where a generator does, and changes only the order of what it
shuffles. -/
structure Host.DrawsFairly {η : Type} (host : Host Float32 η) : Prop where
  uniform : ∀ low high h e, host.uniform low high h = .error e → drawRisk low high = some e
  shuffle : ∀ items h, (host.shuffle items h).1.Perm items

theorem drawRisk_of_uniform {low high : Float32} {g : Random.Generator} {e : Crash}
    (h : g.uniform low high = .error e) : drawRisk low high = some e := by
  obtain ⟨rfl, wide⟩ := Random.Generator.uniform_eq_error.mp h
  exact if_pos wide

theorem turnRisk_of_turnTowards {current target limit : Float32} {e : Crash}
    (h : Angle.turnTowards current target limit = .error e) : turnRisk limit = some e := by
  obtain ⟨rfl, none⟩ := Angle.turnTowards_eq_error.mp h
  exact if_pos none

theorem drawRisk_eq_some {low high : Float32} {e : Crash} (h : drawRisk low high = some e) :
    e = .spanTooWide := by
  unfold drawRisk at h
  split at h
  · exact (Option.some.inj h).symm
  · cases h

variable {η : Type} {host : Host Float32 η} {h h' : η} {crash : Crash}

theorem Host.DrawsFairly.inPlace (fair : host.DrawsFairly) : host.ShufflesInPlace :=
  fun items h => (fair.shuffle items h).length_eq

/-- A recorder draws fairly, whatever its chance comes from. -/
theorem Recorder.host_drawsFairly (setting : Setting Float32) (silent : Bool) :
    (Recorder.host setting silent).DrawsFairly where
  uniform low high r e hdraw := by
    rcases bind_eq_error.mp hdraw with hchance | ⟨_, -, hdone⟩
    · cases hc : r.chance with
      | seeded g =>
          rw [hc] at hchance
          rcases bind_eq_error.mp hchance with hg | ⟨_, -, hdone⟩
          · exact drawRisk_of_uniform hg
          · cases hdone
      | scripted fractions taken =>
          rw [hc] at hchance
          cases hchance
    · cases hdone
  shuffle items r := by
    show (r.chance.shuffle items).1.Perm items
    cases r.chance with
    | seeded g => exact Shot.shuffle_perm items g
    | scripted fractions taken =>
        exact List.perm_append_comm.trans (.of_eq (List.take_append_drop _ items))

/-! ### Bullets and enemies crash by their own operands

Here every crash is one of the instruction that is run, and it is found by opening the
handlers once for each kind.
-/

namespace Bullet

variable {i : Instruction Kind Float32} {m : Motion Float32} {script : Cursor Kind Float32}
  {p : Program Kind Float32}

theorem act_eq_error (fair : host.DrawsFairly) (hact : act host i m h = .error crash) :
    risk? i = some crash := by
  unfold act at hact
  unfold risk?
  cases hkind : i.kind <;> simp only [hkind] at hact ⊢
  case jitter =>
    rcases bind_eq_error.mp hact with hdraw | ⟨_, -, hdone⟩
    · exact fair.uniform _ _ _ _ hdraw
    · cases hdone
  case aimAtPlayer => cases haim : host.headingToPlayer? m.position <;> simp [haim] at hact
  all_goals cases hact

theorem tick_eq_error {frame : Int32} {t : Float32} {given : Option (Scratch Float32)}
    (htick : tick host i frame t given m = .error crash) : risk? i = some crash := by
  unfold tick at htick
  unfold risk?
  cases hkind : i.kind <;> simp only [hkind] at htick ⊢
  case home =>
    cases haim : host.headingToPlayer? m.position <;> simp only [haim] at htick
    · cases htick
    · rcases bind_eq_error.mp htick with hturn | ⟨_, -, hdone⟩
      · exact turnRisk_of_turnTowards hturn
      · cases hdone
  all_goals cases htick

/-- A bullet's tick crashes only if its program has an instruction that may. -/
theorem update_eq_error (fair : host.DrawsFairly) (reachable : script.Reachable p)
    (hu : update host script m h = .error crash) : ∃ i ∈ p.code, risk? i = some crash := by
  unfold update at hu
  split at hu
  · cases hu
  rcases bind_eq_error.mp hu with hscript | ⟨⟨running, script', m', h'⟩, -, hrest⟩
  · obtain ⟨i, hi, ⟨m₁, h₁⟩, -, call | ⟨phase, given, call⟩⟩ :=
      (Interpreter.preserves_true _ p).crash reachable trivial hscript
    · rcases bind_eq_error.mp call with hact | ⟨_, -, hdone⟩
      · exact ⟨i, hi, act_eq_error fair hact⟩
      · cases hdone
    · cases phase with
      | run frame duration t =>
          rcases bind_eq_error.mp call with htick | ⟨_, -, hdone⟩
          · exact ⟨i, hi, tick_eq_error htick⟩
          · cases hdone
      | finish => cases call
  · cases running <;> cases hhandle : m'.handle <;> simp only [hhandle] at hrest <;> cases hrest

end Bullet

namespace Enemy

variable {i : Instruction Kind Float32} {b : Body Float32} {script : Cursor Kind Float32}
  {p : Program Kind Float32} {given : Option (Scratch Float32)}

theorem chooseNear_eq_error (fair : host.DrawsFairly) {radius : Float32} {span : Int32}
    {anchor start : Vec2 Float32}
    (hchoose : chooseNear host radius span anchor start h = .error crash) :
    drawRisk 0.0 radius = some crash := by
  rcases bind_eq_error.mp hchoose with hheading | ⟨_, -, hchoose⟩
  · have none : drawRisk 0.0 360.0 = Option.none := by decide
    have some : drawRisk 0.0 360.0 = Option.some crash := fair.uniform _ _ _ _ hheading
    rw [none] at some
    cases some
  · rcases bind_eq_error.mp hchoose with hdistance | ⟨_, -, hdone⟩
    · exact fair.uniform _ _ _ _ hdistance
    · cases hdone

theorem chooseInBox_eq_error (fair : host.DrawsFairly) {half : Vec2 Float32} {speed : Float32}
    {anchor start : Vec2 Float32}
    (hchoose : chooseInBox host half speed anchor start h = .error crash) :
    (jitterRisk half.x).or (jitterRisk half.y) = some crash := by
  rcases bind_eq_error.mp hchoose with hx | ⟨_, -, hchoose⟩
  · have risk : jitterRisk half.x = some crash := fair.uniform _ _ _ _ hx
    simp [risk]
  · rcases bind_eq_error.mp hchoose with hy | ⟨_, -, hdone⟩
    · have risk : jitterRisk half.y = some crash := fair.uniform _ _ _ _ hy
      obtain rfl := drawRisk_eq_some risk
      cases hx : jitterRisk half.x with
      | none => simpa using risk
      | some e =>
          obtain rfl := drawRisk_eq_some hx
          rfl
    · cases hdone

theorem tick_eq_error (fair : host.DrawsFairly) {frame : Int32} {t : Float32}
    (htick : tick host i frame t given b h = .error crash) : risk? i = some crash := by
  have walks : ∀ {choose : LegChoice Float32 η},
      (∀ anchor start h, choose anchor start h = .error crash → risk? i = some crash) →
      walk choose given b h = .error crash → risk? i = some crash := by
    intro choose chooses hwalk
    obtain ⟨anchor, start, h₁, hchoose⟩ := walk_eq_error hwalk
    exact chooses anchor start h₁ hchoose
  unfold risk? at walks ⊢
  unfold tick at htick
  cases hkind : i.kind <;> simp only [hkind] at htick walks ⊢
  case home =>
    cases haim : host.headingToPlayer? b.position <;> simp only [haim] at htick
    · cases htick
    · rcases bind_eq_error.mp htick with hturn | ⟨_, -, hdone⟩
      · exact turnRisk_of_turnTowards hturn
      · cases hdone
  case followPath => cases hpath : host.path? i.extra <;> simp [hpath] at htick
  case wander => exact walks (fun _ _ _ hchoose => chooseNear_eq_error fair hchoose) htick
  case patrol => exact walks (fun _ _ _ hchoose => chooseInBox_eq_error fair hchoose) htick
  all_goals cases htick

/-- An enemy's tick crashes only if its program has an instruction that may. -/
theorem update_eq_error (fair : host.DrawsFairly) (reachable : script.Reachable p)
    (hu : update host script b h = .error crash) : ∃ i ∈ p.code, risk? i = some crash := by
  unfold update at hu
  split at hu
  · cases hu
  rcases bind_eq_error.mp hu with hscript | ⟨⟨running, script', b', h'⟩, -, hrest⟩
  · obtain ⟨i, hi, ⟨b₁, h₁⟩, -, call | ⟨phase, given, call⟩⟩ :=
      (Interpreter.preserves_true _ p).crash reachable trivial hscript
    · cases call
    · cases phase with
      | run frame duration t =>
          rcases bind_eq_error.mp call with htick | ⟨_, -, hdone⟩
          · exact ⟨i, hi, tick_eq_error fair htick⟩
          · cases hdone
      | finish => cases call
  · cases hhandle : b'.handle <;> simp only [hhandle] at hrest <;> cases hrest

end Enemy

/-! ### The jitter of a shot comes from its program

A volley draws with the jitter that is pending, and an emitter begins with none.  So the
jitter is zero or was set by an instruction of the program, whose operand then carries
the risk.
-/

namespace Shot

variable {i : Instruction Kind Float32} {e e' : Emitter Float32} {script : Cursor Kind Float32}
  {p : Program Kind Float32}

/-- An instruction uses up the jitter, or sets it, or leaves it alone. -/
theorem act_jitter (inPlace : host.ShufflesInPlace) (hact : act host i e h = .ok (e', h')) :
    e'.jitter = 0.0 ∨ e'.jitter = e.jitter ∨
      i.kind = .randomizeNext ∧ e'.jitter = Scalar.abs i.first := by
  rw [show act host i e h = _ from act_unrecorded i e (h, [])] at hact
  obtain ⟨⟨e₁, h₁, calls⟩, hrecorded, hview⟩ := map_eq_ok.mp hact
  obtain ⟨rfl, -⟩ := Prod.mk.inj hview
  obtain ⟨made, -, ⟨-, does⟩ | ⟨-, does⟩⟩ := act_recorded inPlace hrecorded
  · cases does
    exact Or.inl rfl
  · have hjitter := does.jitter
    split at hjitter
    · rename_i kind
      exact Or.inr (Or.inr ⟨kind, hjitter⟩)
    · exact Or.inr (Or.inl hjitter)

/-- If a volley may crash for the jitter that is pending, the program has an instruction that may
crash as well. -/
def Steady (p : Program Kind Float32) (e : Emitter Float32) : Prop :=
  ∀ crash, jitterRisk e.jitter = some crash → ∃ i ∈ p.code, risk? i = some crash

/-- Without jitter nothing can go wrong. -/
theorem steady_of_calm (p : Program Kind Float32) (calm : e.jitter = 0.0) : Steady p e := by
  intro crash risk
  have none : jitterRisk 0.0 = Option.none := by decide
  rw [calm, none] at risk
  cases risk

theorem steady_preserves (inPlace : host.ShufflesInPlace) (p : Program Kind Float32) :
    (interpreter host).Preserves p fun state => Steady p state.1 where
  instant := by
    rintro i hi ⟨e, h⟩ signal ⟨e', h'⟩ steady hcall
    obtain ⟨state, hact, hcall⟩ := bind_eq_ok.mp hcall
    cases hcall
    rcases act_jitter inPlace hact with calm | same | ⟨kind, set⟩
    · exact steady_of_calm p calm
    · intro crash risk
      exact steady crash (same ▸ risk)
    · intro crash risk
      refine ⟨i, hi, ?_⟩
      unfold risk?
      simp only [kind]
      rwa [← set]
  timed := by
    intro i _ phase given state answer left state' steady hcall
    obtain ⟨baseAngle, rfl⟩ := timed_turns hcall
    exact steady

theorem Fails.risk (fair : host.DrawsFairly) (hi : i ∈ p.code) (steady : Steady p e)
    (fails : Fails host i e crash) : ∃ i ∈ p.code, risk? i = some crash := by
  cases fails with
  | angle kind draw =>
      refine ⟨i, hi, ?_⟩
      unfold risk?
      simp only [kind]
      exact fair.uniform _ _ _ _ draw
  | order kind mem stray =>
      rw [(fair.shuffle _ _).mem_iff, List.mem_range] at mem
      omega
  | jitter _ _ draw => exact steady crash (fair.uniform _ _ _ _ draw)

/-- A shot's tick crashes only if its program has an instruction that may. -/
theorem update_eq_error (fair : host.DrawsFairly) (reachable : script.Reachable p)
    (steady : Steady p e) (hu : update host script e h = .error crash) :
    ∃ i ∈ p.code, risk? i = some crash := by
  have start : Steady p (e, h).1 := steady
  obtain ⟨i, hi, ⟨e₁, h₁⟩, steady₁, call | ⟨phase, given, call⟩⟩ :=
    (steady_preserves fair.inPlace p).crash reachable start hu
  · rcases bind_eq_error.mp call with hact | ⟨_, -, hdone⟩
    · exact (act_eq_error hact).risk fair hi steady₁
    · cases hdone
  · cases phase <;> cases call

end Shot

end Barrage
