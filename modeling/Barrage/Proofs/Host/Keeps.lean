/-
What scripts keep in the world, because each operation of the host keeps it.

A script reaches the world through the operations of its host only.  So a property of
the world that every operation keeps is kept by every handler of the three
vocabularies, and by every tick of a script.  One operation is asked for less: a bullet
need only be taken up if it is one of those that are launched at all, and this is a
property of bullets that comes along.

Of the bullets that a shot script asks for it says which script they carry, the one that
the library has under the name that is attached to the emitter, and which sprite they
wear.
-/
import Barrage.Enemy.Script
import Barrage.Bullet.Script
import Barrage.Proofs.Script.Preserve

namespace Barrage

/-- A sequence of two that comes to a result has a result of its first. -/
theorem bind_eq_ok {ε β γ : Type} {x : Except ε β} {f : β → Except ε γ} {r : γ} :
    x >>= f = .ok r ↔ ∃ b, x = .ok b ∧ f b = .ok r := by
  cases x with
  | error e => simp [bind, Except.bind]
  | ok b => simp [bind, Except.bind]

/-- What is changed in a result was a result before. -/
theorem map_eq_ok {ε β γ : Type} {x : Except ε β} {f : β → γ} {r : γ} :
    f <$> x = .ok r ↔ ∃ b, x = .ok b ∧ f b = r := by
  cases x with
  | error e => simp [Functor.map, Except.map]
  | ok b => simp [Functor.map, Except.map]

/-- A sequence of two that crashes has crashed in its first or in its second. -/
theorem bind_eq_error {ε β γ : Type} {x : Except ε β} {f : β → Except ε γ} {e : ε} :
    x >>= f = .error e ↔ x = .error e ∨ ∃ b, x = .ok b ∧ f b = .error e := by
  cases x with
  | error e => simp [bind, Except.bind]
  | ok b => simp [bind, Except.bind]

variable {α η : Type} [Scalar α]

/-! ### Three kinds of operations

Not every script can reach every operation, so what has to be kept by an operation is
asked for in three steps: sounds and chance, which all instructions may use, then
bullets, which only shots ask for, then entities, which only the end of a tick tells
something and a death removes.
-/

/-- The operations that concern no entity keep `H`: sounds and chance. -/
structure Host.KeepsAside (host : Host α η) (H : η → Prop) : Prop where
  playSound : ∀ sound volume h, H h → H (host.playSound sound volume h)
  uniform : ∀ low high h x h', H h → host.uniform low high h = .ok (x, h') → H h'
  shuffle : ∀ items h, H h → H (host.shuffle items h).2

/-- So does asking for a bullet that has the property `L`.  These are the operations of shots. -/
structure Host.KeepsAsking (host : Host α η) (L : Bullet.Launch α → Prop) (H : η → Prop) : Prop
    extends host.KeepsAside H where
  spawnBullet : ∀ launch h, L launch → H h → H (host.spawnBullet launch h).2

/-- Every operation of the host keeps `H`; a bullet that is asked for has the property `L`. -/
structure Host.Keeps (host : Host α η) (L : Bullet.Launch α → Prop) (H : η → Prop) : Prop
    extends host.KeepsAsking L H where
  setPosition : ∀ handle position h, H h → H (host.setPosition handle position h)
  setRotation : ∀ handle rotation h, H h → H (host.setRotation handle rotation h)
  setVelocity : ∀ handle velocity h, H h → H (host.setVelocity handle velocity h)
  destroy : ∀ handle h, H h → H (host.destroy handle h)

variable {host : Host α η} {L : Bullet.Launch α → Prop} {H : η → Prop} {h h' : η} {running : Bool}

/-- Nothing is asked for where nothing is to be kept. -/
theorem Host.keepsAside_true (host : Host α η) : host.KeepsAside fun _ => True :=
  ⟨fun _ _ _ _ => trivial, fun _ _ _ _ _ _ _ => trivial, fun _ _ _ => trivial⟩

/-- Less is asked for where fewer bullets are launched. -/
theorem Host.KeepsAsking.launching {L' : Bullet.Launch α → Prop} (keeps : host.KeepsAsking L H)
    (launches : ∀ launch, L' launch → L launch) : host.KeepsAsking L' H :=
  { keeps with spawnBullet := fun launch h hl => keeps.spawnBullet launch h (launches launch hl) }

/-! ### A bullet's script keeps what sounds and chance keep

Its instructions do not reach an entity; only when the script is over is the result
told.  So most of a tick needs the first of the three alone, and `tell` is what needs
the last.
-/

namespace Bullet

variable {i : Instruction Kind α} {m m' : Motion α} {script script' : Cursor Kind α}
  {p : Program Kind α}

/-- An instant instruction leaves the handle alone. -/
theorem act_keeps (keeps : host.KeepsAside H) (hh : H h)
    (hact : act host i m h = .ok (m', h')) : m'.handle = m.handle ∧ H h' := by
  unfold act at hact
  cases hkind : i.kind <;> simp only [hkind] at hact
  case jitter =>
    obtain ⟨⟨turn, h₁⟩, hdraw, hact⟩ := bind_eq_ok.mp hact
    cases hact
    exact ⟨rfl, keeps.uniform _ _ _ _ _ hh hdraw⟩
  case playSound =>
    cases hact
    exact ⟨rfl, keeps.playSound _ _ _ hh⟩
  case aimAtPlayer =>
    cases haim : host.headingToPlayer? m.position <;> simp only [haim] at hact <;> cases hact <;>
      exact ⟨rfl, hh⟩
  all_goals
    cases hact
    exact ⟨rfl, hh⟩

theorem tick_handle {frame : Int32} {t : α} {given left : Option (Scratch α)} {answer : Hold}
    (htick : tick host i frame t given m = .ok (answer, left, m')) : m'.handle = m.handle := by
  unfold tick at htick
  cases hkind : i.kind <;> simp only [hkind] at htick
  case home =>
    cases haim : host.headingToPlayer? m.position <;> simp only [haim] at htick
    · cases htick
      rfl
    · obtain ⟨heading, -, htick⟩ := bind_eq_ok.mp htick
      cases htick
      rfl
  case refire =>
    unfold askAgain at htick
    split at htick
    · cases htick
      rfl
    · split at htick <;> cases htick <;> rfl
  all_goals
    cases htick
    rfl

theorem conclude_handle (i : Instruction Kind α) (given : Option (Scratch α)) (m : Motion α) :
    (conclude i given m).handle = m.handle := by
  unfold conclude
  split <;> rfl

theorem interpreter_preserves (keeps : host.KeepsAside H) (p : Program Kind α)
    (handle : Option Handle) :
    (interpreter host).Preserves p fun state => state.1.handle = handle ∧ H state.2 where
  instant := by
    rintro i - ⟨m, h⟩ signal ⟨m', h'⟩ ⟨hhandle, hh⟩ hcall
    obtain ⟨state, hact, hcall⟩ := bind_eq_ok.mp hcall
    obtain ⟨-, rfl⟩ := Prod.mk.inj (Except.ok.inj hcall)
    obtain ⟨same, hh'⟩ := act_keeps keeps hh hact
    exact ⟨same.trans hhandle, hh'⟩
  timed := by
    rintro i - phase given ⟨m, h⟩ answer left ⟨m', h'⟩ ⟨hhandle, hh⟩ hcall
    cases phase with
    | run frame duration t =>
        obtain ⟨⟨answer', left', m₁⟩, htick, hcall⟩ := bind_eq_ok.mp hcall
        cases hcall
        exact ⟨(tick_handle htick).trans hhandle, hh⟩
    | finish =>
        cases hcall
        exact ⟨(conclude_handle i given m).trans hhandle, hh⟩

/-- How a bullet flies on, and where it looks, is told to its entity. -/
def tell (host : Host α η) (m : Motion α) (h : η) : η :=
  match m.handle with
  | some handle => host.setRotation handle m.heading (host.setVelocity handle m.velocity h)
  | none => h

/-- A bullet's tick does nothing if its script is over; otherwise the script is run, and the result
is told to the entity if the script has no more. -/
theorem update_tells (hu : update host script m h = .ok (running, script', m', h')) :
    script.finished = true ∧ (running, script', m', h') = (false, script, m, h) ∨
      script.finished = false ∧ ∃ h₁,
        script.update (interpreter host) (m, h) = .ok (running, script', m', h₁) ∧
        h' = if running then h₁ else tell host m' h₁ := by
  unfold update at hu
  split at hu
  · rename_i finished
    exact Or.inl ⟨finished, (Except.ok.inj hu).symm⟩
  · rename_i unfinished
    obtain ⟨⟨running₁, script₁, m₁, h₁⟩, hscript, hu⟩ := bind_eq_ok.mp hu
    refine Or.inr ⟨Bool.eq_false_of_not_eq_true unfinished, h₁, ?_⟩
    unfold tell
    cases running₁ <;> cases hhandle : m₁.handle <;> simp only [hhandle] at hu <;> cases hu <;>
      exact ⟨hscript, by simp [hhandle]⟩

/-- What a bullet's tick has done: the script was run, and the result may have been told to the
entity. -/
theorem update_cases (hu : update host script m h = .ok (running, script', m', h')) :
    ∃ h₁, script.update (interpreter host) (m, h) = .ok (running, script', m', h₁) ∧
      (h' = h₁ ∨ ∃ handle, h' = host.setRotation handle m'.heading
        (host.setVelocity handle m'.velocity h₁)) := by
  rcases update_tells hu with ⟨finished, rest⟩ | ⟨-, h₁, hscript, rfl⟩
  · cases rest
    exact ⟨h, Cursor.update_finished finished _ _, Or.inl rfl⟩
  · refine ⟨h₁, hscript, ?_⟩
    unfold tell
    cases running with
    | true => exact Or.inl rfl
    | false =>
        cases m'.handle with
        | none => exact Or.inl rfl
        | some handle => exact Or.inr ⟨handle, rfl⟩

theorem update_keeps (keeps : host.Keeps L H) (reachable : script.Reachable p) (hh : H h)
    (hu : update host script m h = .ok (running, script', m', h')) :
    m'.handle = m.handle ∧ H h' := by
  obtain ⟨h₁, hscript, hrest⟩ := update_cases hu
  obtain ⟨same, hh₁⟩ := (interpreter_preserves keeps.toKeepsAside p m.handle).update reachable
    ⟨rfl, hh⟩ hscript
  rcases hrest with rfl | ⟨handle, rfl⟩
  · exact ⟨same, hh₁⟩
  · exact ⟨same, keeps.setRotation _ _ _ (keeps.setVelocity _ _ _ hh₁)⟩

end Bullet

/-! ### An enemy's script starts shots and removes one entity

With the world a property of the shots is kept, since they are the one thing that an
enemy hands over to later ticks.  All instructions but the one to die leave the entities
alone, which is how far the first step of the three goes.
-/

namespace Enemy

variable {i : Instruction Kind α} {b b' : Body α} {script script' : Cursor Kind α}
  {p : Program Kind α} {scratch scratch' : Option (Scratch α)}

theorem die_keeps (keeps : host.Keeps L H) (hh : H h) : H (die host b h).2 := by
  unfold die
  cases b.handle with
  | none => exact hh
  | some handle => exact keeps.destroy _ _ hh

/-- All instant instructions but the one to die leave the entities alone. -/
theorem act_keepsAside (keeps : host.KeepsAside H) (hkind : i.kind ≠ .die) (hh : H h) :
    H (act host i b h).2.2 := by
  unfold act
  cases hk : i.kind
  case die => exact absurd hk hkind
  case playSound => exact keeps.playSound _ _ _ hh
  all_goals exact hh

theorem act_keeps (keeps : host.Keeps L H) (hh : H h) : H (act host i b h).2.2 := by
  by_cases hkind : i.kind = .die
  · unfold act
    simp only [hkind]
    exact die_keeps keeps hh
  · exact act_keepsAside keeps.toKeepsAside hkind hh

theorem chooseNear_keeps (keeps : host.KeepsAside H) {radius : α} {span : Int32}
    {anchor start : Vec2 α} {leg : Vec2 α × Int32} (hh : H h)
    (hchoose : chooseNear host radius span anchor start h = .ok (leg, h')) : H h' := by
  obtain ⟨⟨heading, h₁⟩, hheading, hchoose⟩ := bind_eq_ok.mp hchoose
  obtain ⟨⟨distance, h₂⟩, hdistance, hchoose⟩ := bind_eq_ok.mp hchoose
  cases hchoose
  exact keeps.uniform _ _ _ _ _ (keeps.uniform _ _ _ _ _ hh hheading) hdistance

theorem chooseInBox_keeps (keeps : host.KeepsAside H) {half : Vec2 α} {speed : α}
    {anchor start : Vec2 α} {leg : Vec2 α × Int32} (hh : H h)
    (hchoose : chooseInBox host half speed anchor start h = .ok (leg, h')) : H h' := by
  obtain ⟨⟨x, h₁⟩, hx, hchoose⟩ := bind_eq_ok.mp hchoose
  obtain ⟨⟨y, h₂⟩, hy, hchoose⟩ := bind_eq_ok.mp hchoose
  cases hchoose
  exact keeps.uniform _ _ _ _ _ (keeps.uniform _ _ _ _ _ hh hx) hy

/-- Where the next tick takes an enemy that is on a leg. -/
def ahead (leg : Leg α) : Vec2 α :=
  leg.departure.lerp leg.target
    (Scalar.atMostOne (Scalar.ofInt32 (leg.timer + 1) / Scalar.ofInt32 leg.span))

/-- A tick of a walk takes the enemy along the present leg.  If that is the last one of the leg, the
next leg is chosen, and otherwise the leg has been on for one tick more. -/
theorem walk_cases {choose : LegChoice α η}
    (hwalk : walk choose scratch b h = .ok (scratch', b', h')) :
    ∃ leg h₁, currentLeg choose scratch b.position h = .ok (leg, h₁) ∧
      b' = { b with position := ahead leg } ∧
      ((leg.span ≤ leg.timer + 1 ∧ ∃ target span,
          choose leg.anchor leg.target h₁ = .ok ((target, span), h') ∧ scratch' = some (.leg
            { anchor := leg.anchor, departure := leg.target, target, timer := 0, span })) ∨
        (leg.timer + 1 < leg.span ∧ h' = h₁ ∧
          scratch' = some (.leg { leg with timer := leg.timer + 1 }))) := by
  obtain ⟨⟨leg, h₁⟩, hcurrent, hwalk⟩ := bind_eq_ok.mp hwalk
  refine ⟨leg, h₁, hcurrent, ?_⟩
  dsimp only at hwalk
  by_cases arrived : leg.span ≤ leg.timer + 1
  · rw [if_pos arrived] at hwalk
    obtain ⟨⟨⟨target, span⟩, h₂⟩, hnext, hwalk⟩ := bind_eq_ok.mp hwalk
    cases hwalk
    exact ⟨rfl, .inl ⟨arrived, target, span, hnext, rfl⟩⟩
  · rw [if_neg arrived] at hwalk
    cases hwalk
    exact ⟨rfl, .inr ⟨Int32.not_le.mp arrived, rfl, rfl⟩⟩

/-- A tick of a walk crashes only where a choice of legs does. -/
theorem walk_eq_error {choose : LegChoice α η} {e : Crash}
    (hwalk : walk choose scratch b h = .error e) :
    ∃ anchor start h₁, choose anchor start h₁ = .error e := by
  rcases bind_eq_error.mp hwalk with hcurrent | ⟨⟨leg, h₁⟩, -, hwalk⟩
  · unfold currentLeg at hcurrent
    split at hcurrent
    · cases hcurrent
    · rcases bind_eq_error.mp hcurrent with hfirst | ⟨_, -, hdone⟩
      · exact ⟨_, _, _, hfirst⟩
      · cases hdone
  · dsimp only at hwalk
    split at hwalk
    · rcases bind_eq_error.mp hwalk with hnext | ⟨_, -, hdone⟩
      · exact ⟨_, _, _, hnext⟩
      · cases hdone
    · cases hwalk

/-- A tick of a walk changes the position only, and draws what the choice of legs draws. -/
theorem walk_keeps {choose : LegChoice α η}
    (chooses : ∀ anchor start h leg h', H h → choose anchor start h = .ok (leg, h') → H h')
    (hh : H h) (hwalk : walk choose scratch b h = .ok (scratch', b', h')) :
    (∃ position, b' = { b with position }) ∧ H h' := by
  obtain ⟨leg, h₁, hcurrent, rfl, next⟩ := walk_cases hwalk
  have hh₁ : H h₁ := by
    unfold currentLeg at hcurrent
    split at hcurrent
    · cases hcurrent
      exact hh
    · obtain ⟨⟨first, h₂⟩, hfirst, hcurrent⟩ := bind_eq_ok.mp hcurrent
      cases hcurrent
      exact chooses _ _ _ _ _ hh hfirst
  refine ⟨⟨_, rfl⟩, ?_⟩
  obtain ⟨-, target, span, hnext, -⟩ | ⟨-, rfl, -⟩ := next
  · exact chooses _ _ _ _ _ hh₁ hnext
  · exact hh₁

/-- A tick of a timed instruction moves and turns the enemy only. -/
theorem tick_keeps (keeps : host.KeepsAside H) {frame : Int32} {t : α} (hh : H h)
    (htick : tick host i frame t scratch b h = .ok (scratch', b', h')) :
    (∃ position angle, b' = { b with position, angle }) ∧ H h' := by
  have walks : ∀ {choose : LegChoice α η},
      (∀ anchor start h leg h', H h → choose anchor start h = .ok (leg, h') → H h') →
      walk choose scratch b h = .ok (scratch', b', h') →
      (∃ position angle, b' = { b with position, angle }) ∧ H h' := by
    intro choose chooses hwalk
    obtain ⟨⟨position, rfl⟩, hh'⟩ := walk_keeps chooses hh hwalk
    exact ⟨⟨position, b.angle, rfl⟩, hh'⟩
  unfold tick at htick
  cases hkind : i.kind <;> simp only [hkind] at htick
  case home =>
    cases haim : host.headingToPlayer? b.position <;> simp only [haim] at htick <;>
      obtain ⟨angle, -, htick⟩ := bind_eq_ok.mp htick <;> cases htick <;> exact ⟨⟨_, _, rfl⟩, hh⟩
  case followPath =>
    cases hpath : host.path? i.extra <;> simp only [hpath] at htick <;> cases htick <;>
      exact ⟨⟨_, _, rfl⟩, hh⟩
  case wander => exact walks (fun _ _ _ _ _ hh hleg => chooseNear_keeps keeps hh hleg) htick
  case patrol => exact walks (fun _ _ _ _ _ hh hleg => chooseInBox_keeps keeps hh hleg) htick
  all_goals
    cases htick
    exact ⟨⟨_, _, rfl⟩, hh⟩

/-- The end of a span moves the enemy only. -/
theorem conclude_eq (host : Host α η) (i : Instruction Kind α) (scratch : Option (Scratch α))
    (b : Body α) : ∃ position, conclude host i scratch b = { b with position } := by
  unfold conclude
  cases i.kind <;> simp only
  case followPath => cases host.path? i.extra <;> exact ⟨_, rfl⟩
  all_goals exact ⟨_, rfl⟩

/-- A timed instruction moves and turns the enemy only. -/
theorem timed_keeps (keeps : host.KeepsAside H) {phase : Phase α} {answer : Hold} (hh : H h)
    (hcall : (interpreter host).timed i phase scratch (b, h) = .ok (answer, scratch', b', h')) :
    (∃ position angle, b' = { b with position, angle }) ∧ H h' := by
  cases phase with
  | run frame duration t =>
      obtain ⟨state, htick, hcall⟩ := bind_eq_ok.mp hcall
      cases hcall
      exact tick_keeps keeps hh htick
  | finish =>
      cases hcall
      obtain ⟨position, hbody⟩ := conclude_eq host i scratch b
      exact ⟨⟨position, b.angle, hbody⟩, hh⟩

theorem timed_moves {phase : Phase α} {answer : Hold}
    (hcall : (interpreter host).timed i phase scratch (b, h) = .ok (answer, scratch', b', h')) :
    ∃ position angle, b' = { b with position, angle } :=
  (timed_keeps host.keepsAside_true trivial hcall).1

/-- The shot that an enemy starts with an instruction. -/
def started (i : Instruction Kind α) (b : Body α) (script : Cursor Shot.Kind α) : ActiveShot α where
  name := i.label
  slot := i.extra
  emitter := .ofOrigin (b.fireOrigin i.extra)
  script

/-- Every shot that is running was running before, or is started. -/
theorem mem_act_shots {shot : ActiveShot α} (hshot : shot ∈ (act host i b h).2.1.shots) :
    shot ∈ b.shots ∨ i.kind = .fire ∧
      ∃ script, host.library.shots.cursor? i.label = some script ∧ shot = started i b script := by
  unfold act at hshot
  cases hkind : i.kind <;> simp only [hkind] at hshot
  case die => exact absurd hshot List.not_mem_nil
  case fire =>
    unfold startShot at hshot
    cases hname : host.library.shots.cursor? i.label with
    | none =>
        simp only [hname] at hshot
        exact Or.inl hshot
    | some script =>
        simp only [hname] at hshot
        rcases List.mem_append.mp hshot with hold | hnew
        · exact Or.inl hold
        · exact Or.inr ⟨rfl, script, rfl, List.mem_singleton.mp hnew⟩
  all_goals exact Or.inl hshot

/-- With a property of the world, a property of shots is preserved that every shot which is
started has. -/
theorem interpreter_preserves {A : ActiveShot α → Prop} (keeps : host.Keeps L H)
    (starts : ∀ i ∈ p.code, i.kind = .fire → ∀ b script,
      host.library.shots.cursor? i.label = some script → A (started i b script)) :
    (interpreter host).Preserves p fun state => (∀ shot ∈ state.1.shots, A shot) ∧ H state.2 where
  instant := by
    rintro i hi ⟨b, h⟩ signal ⟨b', h'⟩ ⟨hshots, hh⟩ hcall
    have hact := Except.ok.inj hcall
    have hworld : H (act host i b h).2.2 := act_keeps keeps hh
    rw [hact] at hworld
    refine ⟨fun shot hshot => ?_, hworld⟩
    have hmem : shot ∈ (act host i b h).2.1.shots := by rwa [hact]
    rcases mem_act_shots hmem with hold | ⟨hkind, script, hname, rfl⟩
    · exact hshots shot hold
    · exact starts i hi hkind b script hname
  timed := by
    rintro i - phase given ⟨b, h⟩ answer left ⟨b', h'⟩ ⟨hshots, hh⟩ hcall
    obtain ⟨⟨position, angle, rfl⟩, hworld⟩ := timed_keeps keeps.toKeepsAside hh hcall
    exact ⟨hshots, hworld⟩

/-- Where the enemy is, and where it looks, is told to its entity. -/
def tell (host : Host α η) (b : Body α) (h : η) : η :=
  match b.handle with
  | some handle => host.setRotation handle b.angle (host.setPosition handle b.position h)
  | none => h

/-- An enemy's tick does nothing if its script is over; otherwise the script is run, and the result
is told to the entity. -/
theorem update_tells (hu : update host script b h = .ok (running, script', b', h')) :
    script.finished = true ∧ (running, script', b', h') = (false, script, b, h) ∨
      ∃ h₁, script.update (interpreter host) (b, h) = .ok (running, script', b', h₁) ∧
        h' = tell host b' h₁ := by
  unfold update at hu
  split at hu
  · rename_i finished
    exact Or.inl ⟨finished, (Except.ok.inj hu).symm⟩
  · obtain ⟨⟨running₁, script₁, b₁, h₁⟩, hscript, hu⟩ := bind_eq_ok.mp hu
    refine Or.inr ⟨h₁, ?_⟩
    unfold tell
    cases hhandle : b₁.handle <;> simp only [hhandle] at hu <;> cases hu <;>
      exact ⟨hscript, by simp only [hhandle]⟩

/-- What an enemy's tick has done: the script was run, and the result may have been told to the
entity. -/
theorem update_cases (hu : update host script b h = .ok (running, script', b', h')) :
    ∃ h₁, script.update (interpreter host) (b, h) = .ok (running, script', b', h₁) ∧
      (h' = h₁ ∨ ∃ handle, h' = host.setRotation handle b'.angle
        (host.setPosition handle b'.position h₁)) := by
  rcases update_tells hu with ⟨finished, rest⟩ | ⟨h₁, hscript, rfl⟩
  · cases rest
    exact ⟨h, Cursor.update_finished finished _ _, Or.inl rfl⟩
  · refine ⟨h₁, hscript, ?_⟩
    unfold tell
    cases b'.handle with
    | none => exact Or.inl rfl
    | some handle => exact Or.inr ⟨handle, rfl⟩

theorem update_keeps {A : ActiveShot α → Prop} (keeps : host.Keeps L H)
    (starts : ∀ i ∈ p.code, i.kind = .fire → ∀ b script,
      host.library.shots.cursor? i.label = some script → A (started i b script))
    (reachable : script.Reachable p) (hshots : ∀ shot ∈ b.shots, A shot) (hh : H h)
    (hu : update host script b h = .ok (running, script', b', h')) :
    (∀ shot ∈ b'.shots, A shot) ∧ H h' := by
  obtain ⟨h₁, hscript, hrest⟩ := update_cases hu
  obtain ⟨hshots', hh₁⟩ :=
    (interpreter_preserves keeps starts).update reachable ⟨hshots, hh⟩ hscript
  rcases hrest with rfl | ⟨handle, rfl⟩
  · exact ⟨hshots', hh₁⟩
  · exact ⟨hshots', keeps.setRotation _ _ _ (keeps.setPosition _ _ _ hh₁)⟩

end Enemy

/-! ### A shot asks for bullets as its emitter stands

What is asked for depends on the motion that is attached at that moment, and attaching
one is an instruction as well.  So the property of bullets is one of the attached motion
first, and is kept along with it.
-/

namespace Shot

variable {i : Instruction Kind α} {e e' : Emitter α} {script script' : Cursor Kind α}
  {p : Program Kind α} {rounds : List (Round α)} {volley : Option (List (Round α))}

/-- The bullet carries the script that the library has under the attached name. -/
def Carries (library : Library α) (motion : Option String) (launch : Bullet.Launch α) : Prop :=
  launch.script = motion.bind library.bullets.cursor?

/-- A bullet as an emitter asks for it, with the attached script and the sprite of its template and
color. -/
structure Launched (setting : Setting α) (motion : Option String) (launch : Bullet.Launch α) :
    Prop where
  carries : Carries setting.library motion launch
  wears : setting.sprite? launch.template launch.color = some launch.sprite

theorem randomAngles_keeps (keeps : host.KeepsAside H) {count : Int32} {center arc : α}
    {angles : List α} (hh : H h)
    (hdraws : Spread.randomAngles host.uniform count center arc h = .ok (angles, h')) : H h' := by
  unfold Spread.randomAngles at hdraws
  generalize count.toNatClampNeg = n at hdraws
  induction n generalizing h angles with
  | zero =>
      cases hdraws
      exact hh
  | succ n ih =>
      obtain ⟨⟨u, h₁⟩, hu, hdraws⟩ := bind_eq_ok.mp hdraws
      obtain ⟨⟨rest, h₂⟩, hrest, hdraws⟩ := bind_eq_ok.mp hdraws
      cases hdraws
      exact ih (keeps.uniform _ _ _ _ _ hh hu) hrest

theorem volley?_keeps (keeps : host.KeepsAside H) (hh : H h)
    (hvolley : volley? host i e h = .ok (volley, h')) : H h' := by
  unfold volley? at hvolley
  cases hkind : i.kind <;> simp only [hkind] at hvolley
  case fireSpreadShuffled =>
    obtain ⟨picked, -, hvolley⟩ := bind_eq_ok.mp hvolley
    cases hvolley
    exact keeps.shuffle _ _ hh
  case fireSpreadRandom =>
    obtain ⟨⟨angles, h₁⟩, hangles, hvolley⟩ := bind_eq_ok.mp hvolley
    cases hvolley
    exact randomAngles_keeps keeps hh hangles
  all_goals
    cases hvolley
    exact hh

theorem launch_keeps (keeps : host.KeepsAsking (Launched host.toSetting e.motion) H) (hh : H h)
    (heading : α) (r : Round α) :
    (launch host heading r e h).1.motion = e.motion ∧ H (launch host heading r e h).2 := by
  unfold launch
  cases hsprite : host.sprite? r.template r.color with
  | none => exact ⟨rfl, hh⟩
  | some sprite =>
      refine ⟨?_, keeps.spawnBullet _ _ ⟨rfl, hsprite⟩ hh⟩
      dsimp only
      split <;> rfl

theorem launchAll_keeps (keeps : host.KeepsAsking (Launched host.toSetting e.motion) H) (hh : H h)
    (deviation : α) (rounds : List (Round α)) :
    (launchAll host deviation rounds e h).1.motion = e.motion ∧
      H (launchAll host deviation rounds e h).2 := by
  unfold launchAll
  induction rounds generalizing e h with
  | nil => exact ⟨rfl, hh⟩
  | cons r rest ih =>
      obtain ⟨same, hh₁⟩ := launch_keeps keeps hh (e.baseAngle + r.angle + deviation) r
      obtain ⟨same', hh₂⟩ := ih (same.symm ▸ keeps) hh₁
      exact ⟨same'.trans same, hh₂⟩

theorem fire_keeps (keeps : host.KeepsAsking (Launched host.toSetting e.motion) H) (hh : H h)
    (hfire : fire host rounds e h = .ok (e', h')) : e'.motion = e.motion ∧ H h' := by
  have volley : ∀ {deviation h₁}, H h₁ →
      launchAll host deviation rounds { e with jitter := 0.0 } h₁ = (e', h') →
      e'.motion = e.motion ∧ H h' := by
    intro deviation h₁ hh₁ hall
    have hkept := launchAll_keeps (e := { e with jitter := 0.0 }) keeps hh₁ deviation rounds
    rwa [hall] at hkept
  unfold fire at hfire
  dsimp only at hfire
  split at hfire
  · exact volley hh (Except.ok.inj hfire)
  · obtain ⟨⟨deviation, h₁⟩, hdraw, hfire⟩ := bind_eq_ok.mp hfire
    exact volley (keeps.uniform _ _ _ _ _ hh hdraw) (Except.ok.inj hfire)

/-- The motion that is attached after an instruction. -/
def motionAfter (i : Instruction Kind α) (e : Emitter α) : Option String :=
  match i.kind with
  | .attachMotion => some i.label
  | .detachMotion => none
  | _ => e.motion

theorem volley?_motion (hvolley : volley? host i e h = .ok (some rounds, h')) :
    motionAfter i e = e.motion := by
  unfold volley? at hvolley
  unfold motionAfter
  cases hkind : i.kind <;> simp only [hkind] at hvolley ⊢
  case attachMotion => cases hvolley
  case detachMotion => cases hvolley

theorem adjust_keeps (keeps : host.KeepsAside H) (hh : H h) :
    (adjust host i e h).1.motion = motionAfter i e ∧ H (adjust host i e h).2 := by
  unfold adjust motionAfter
  cases i.kind
  case playSound => exact ⟨rfl, keeps.playSound _ _ _ hh⟩
  case aimAtPlayer => cases host.headingToPlayer? e.muzzle <;> exact ⟨rfl, hh⟩
  all_goals exact ⟨rfl, hh⟩

theorem act_keeps (keeps : host.KeepsAsking (Launched host.toSetting e.motion) H) (hh : H h)
    (hact : act host i e h = .ok (e', h')) : e'.motion = motionAfter i e ∧ H h' := by
  obtain ⟨⟨volley, h₁⟩, hvolley, hact⟩ := bind_eq_ok.mp hact
  have hh₁ := volley?_keeps keeps.toKeepsAside hh hvolley
  cases volley with
  | some rounds =>
      obtain ⟨same, hh'⟩ := fire_keeps keeps hh₁ hact
      exact ⟨same.trans (volley?_motion hvolley).symm, hh'⟩
  | none =>
      have hadjust := adjust_keeps (i := i) (e := e) keeps.toKeepsAside hh₁
      rwa [Except.ok.inj hact] at hadjust

/-- A timed instruction turns the emitter only. -/
theorem timed_turns {phase : Phase α} {given left : Option (Scratch α)} {answer : Hold}
    {state state' : Emitter α × η}
    (call : (interpreter host).timed i phase given state = .ok (answer, left, state')) :
    ∃ baseAngle, state' = ({ state.1 with baseAngle }, state.2) := by
  obtain ⟨e, h⟩ := state
  cases phase with
  | run frame duration t =>
      cases call
      unfold tick
      cases i.kind <;> exact ⟨_, rfl⟩
  | finish =>
      cases call
      exact ⟨_, rfl⟩

/-- With a property of the world, a property of the attached motion is preserved that every motion
has which is attached. -/
theorem interpreter_preserves {M : Option String → Prop}
    (keeps : host.KeepsAsking
      (fun launch => ∃ motion, M motion ∧ Launched host.toSetting motion launch) H)
    (attaches : ∀ i ∈ p.code, i.kind = .attachMotion → M (some i.label)) (detached : M none) :
    (interpreter host).Preserves p fun state => M state.1.motion ∧ H state.2 where
  instant := by
    rintro i hi ⟨e, h⟩ signal ⟨e', h'⟩ ⟨hmotion, hh⟩ hcall
    obtain ⟨state, hact, hcall⟩ := bind_eq_ok.mp hcall
    cases hcall
    have carried := keeps.launching fun launch hl => ⟨e.motion, hmotion, hl⟩
    obtain ⟨after, hh'⟩ := act_keeps carried hh hact
    refine ⟨?_, hh'⟩
    show M e'.motion
    rw [after]
    unfold motionAfter
    cases hkind : i.kind
    case attachMotion => exact attaches i hi hkind
    case detachMotion => exact detached
    all_goals exact hmotion
  timed := by
    intro i _ phase given state answer left state' h hcall
    obtain ⟨baseAngle, rfl⟩ := timed_turns hcall
    exact h

/-- A step keeps what is kept while the bullets asked for are launched with the motion that is
attached before it. -/
theorem step_keeps {t : Pulse Kind α (Emitter α × η)} {r : Step Kind α (Emitter α × η)}
    (keeps : host.KeepsAsking (Launched host.toSetting t.state.1.motion) H) (hh : H t.state.2)
    (hstep : t.step (interpreter host) = .ok r) : H r.state.2 := by
  rcases (Pulse.outcome_of_step hstep).state_cases with
    same | ⟨i, run, ⟨signal, call⟩ | ⟨phase, answer, left, call⟩⟩
  · exact same.symm ▸ hh
  · obtain ⟨state, hact, call⟩ := bind_eq_ok.mp call
    obtain ⟨-, rfl⟩ := Prod.mk.inj (Except.ok.inj call)
    exact (act_keeps keeps hh hact).2
  · obtain ⟨baseAngle, hstate⟩ := timed_turns call
    rw [hstate]
    exact hh

end Shot

end Barrage
