/-
A stage whose library is closed runs closed scripts only.

The invariant has one part for each place where scripts are: the script of the enemy and
those of its shots, the bullets on the field, and the bullets in the queue.  Scripts come
to these places from the library only, where all of them are closed, and every tick of a
script keeps its program.  So whichever actor has its turn, its script is closed.
-/
import Barrage.Proofs.Catalog.Closed
import Barrage.Proofs.Stage.Parts

namespace Barrage

/-! ### Scripts of programs that have a property

`Executes` is weaker than being reachable in a fixed program: it is known of the program
only that it has the property.  A call that misses its label is then a fault that the
property rules out.
-/

namespace Cursor

variable {κ α σ : Type} [Vocabulary κ] [Scalar α] {Q : Program κ α → Prop} {c c' : Cursor κ α}
  {I : Interpreter κ α σ} {state state' : σ} {running : Bool}

/-- The script is somewhere in a run of a program with the property `Q`. -/
def Executes (Q : Program κ α → Prop) (c : Cursor κ α) : Prop :=
  ∃ p, c.Reachable p ∧ Q p

theorem executes_ofProgram {p : Program κ α} (h : Q p) : (ofProgram p).Executes Q :=
  ⟨p, .start, h⟩

theorem Executes.update (h : c.Executes Q) (hu : c.update I state = .ok (running, c', state')) :
    c'.Executes Q := by
  obtain ⟨p, reachable, hp⟩ := h
  exact ⟨p, reachable.update hu, hp⟩

theorem Executes.imp {Q' : Program κ α → Prop} (h : c.Executes Q) (weaker : ∀ p, Q p → Q' p) :
    c.Executes Q' := by
  obtain ⟨p, reachable, hp⟩ := h
  exact ⟨p, reachable, weaker p hp⟩

/-- The script has been stopped at a call whose label is not there. -/
def MissesLabel (c : Cursor κ α) : Prop :=
  ∃ position label, c.fault = some (.unknownSubroutine position label)

theorem Executes.not_missesLabel (h : c.Executes Program.CallsDeclared) : ¬ c.MissesLabel := by
  obtain ⟨p, reachable, declared⟩ := h
  intro hmiss
  obtain ⟨position, label, hfault⟩ := hmiss
  exact reachable.fault_ne_unknown declared position label hfault

end Cursor

/-! ### What is closed

A motion is attached by its name, and the name is looked up when a shot fires.  So a
shot needs more than a closed program: the name it has attached has to be in the library
as well.
-/

/-- The script of a bullet is closed, if it has one. -/
def Bullet.ScriptClosed (script : Option (Cursor Bullet.Kind Float32)) : Prop :=
  ∀ c ∈ script, c.Executes Program.CallsDeclared

/-- The attached motion is in the library, if one is attached. -/
def Shot.MotionKnown (library : Library Float32) (motion : Option String) : Prop :=
  ∀ name ∈ motion, library.bullets.contains name = true

/-- A running shot uses names of the library only. -/
structure Enemy.ActiveShot.ClosedIn (library : Library Float32)
    (shot : Enemy.ActiveShot Float32) : Prop where
  script : shot.script.Executes (Shot.ClosedIn library)
  motion : Shot.MotionKnown library shot.emitter.motion

/-- The bullets in the queue have closed scripts. -/
def Stage.World.Closed (w : World) : Prop :=
  ∀ asked ∈ w.store.queued, Bullet.ScriptClosed asked.2.script

/-- All scripts of the stage use names of the library only. -/
structure Stage.ClosedIn (library : Library Float32) (s : Stage) : Prop where
  same : s.setting.library = library
  script : s.script.Executes (Enemy.ClosedIn library)
  shots : ∀ body ∈ s.enemy, ∀ shot ∈ body.shots, shot.ClosedIn library
  bullets : ∀ b ∈ s.bullets, Bullet.ScriptClosed b.script
  queued : s.world.Closed

variable {library : Library Float32}

/-! ### Scripts that come from the library

Every cursor that a registry hands out is at the start of a program that it holds.
-/

theorem Registry.executes_of_cursor? {κ : Type} [Vocabulary κ] {r : Registry κ Float32}
    {Q : Program κ Float32 → Prop} (all : ∀ name p, r.get? name = some p → Q p)
    {name : String} {c : Cursor κ Float32} (h : r.cursor? name = some c) : c.Executes Q := by
  obtain ⟨p, hp, rfl⟩ := cursor?_eq_some.mp h
  exact Cursor.executes_ofProgram (all name p hp)

/-- What an emitter asks for runs a program of the library. -/
theorem Shot.Carries.executes {Q : Program Bullet.Kind Float32 → Prop}
    (all : ∀ name p, library.bullets.get? name = some p → Q p) {motion : Option String}
    {launch : Bullet.Launch Float32} (carries : Shot.Carries library motion launch) :
    ∀ c ∈ launch.script, c.Executes Q := by
  intro c hc
  rw [carries] at hc
  obtain ⟨name, -, hname⟩ := Option.bind_eq_some_iff.mp hc
  exact Registry.executes_of_cursor? all hname

theorem Enemy.started_closedIn (closed : library.Closed) (i : Instruction Enemy.Kind Float32)
    (b : Enemy.Body Float32) {script : Cursor Shot.Kind Float32}
    (hname : library.shots.cursor? i.label = some script) :
    (Enemy.started i b script).ClosedIn library where
  script := Registry.executes_of_cursor? closed.shots hname
  motion := by simp [Shot.MotionKnown, started, Shot.Emitter.ofOrigin]

namespace Stage

variable {setting : Setting Float32} {s s' : Stage} {w w' : World}

/-! ### Actors

One tick of each of the three actors.  Only a shot adds scripts to the queue, and only
an enemy starts shots; the properties they start with are those of the library.
-/

/-- What is closed of the parts of a stage. -/
def Parts.closedIn (library : Library Float32) : Parts where
  script := (·.Executes (Enemy.ClosedIn library))
  shot := (·.ClosedIn library)
  bullet b := Bullet.ScriptClosed b.script
  launch l := Bullet.ScriptClosed l.script

theorem World.closed_keeps (setting : Setting Float32) :
    (World.host setting).Keeps (fun launch => Bullet.ScriptClosed launch.script) World.Closed :=
  World.queues_keeps setting _

theorem closedIn_iff : s.ClosedIn library ↔
    s.setting.library = library ∧ s.Has (.closedIn library) :=
  ⟨fun h => ⟨h.same, h.script, h.shots, h.bullets, h.queued⟩,
    fun ⟨same, h⟩ => ⟨same, h.script, h.shots, h.bullets, h.queued⟩⟩

/-- A closed shot program attaches motions of the library only, and asks for bullets with closed
scripts. -/
theorem shot_preserves (closed : setting.library.Closed) {p : Program Shot.Kind Float32}
    (hp : Shot.ClosedIn setting.library p) :
    (Shot.interpreter (World.host setting)).Preserves p fun state =>
      Shot.MotionKnown setting.library state.1.motion ∧ state.2.Closed := by
  have launches : ∀ launch, (∃ motion, Shot.MotionKnown setting.library motion ∧
      Shot.Launched setting motion launch) → Bullet.ScriptClosed launch.script := by
    intro launch hlaunch
    obtain ⟨motion, -, launched⟩ := hlaunch
    exact launched.carries.executes closed.bullets
  have attaches : ∀ i ∈ p.code, i.kind = .attachMotion →
      Shot.MotionKnown setting.library (some i.label) := by
    intro i hi hkind name hname
    rw [← Option.some.inj hname]
    exact hp.motions i hi hkind
  have detached : Shot.MotionKnown setting.library none := by simp [Shot.MotionKnown]
  have keeps := (World.closed_keeps setting).launching launches
  exact Shot.interpreter_preserves keeps attaches detached

theorem shotsKeep (closed : setting.library.Closed) (origin : Int32 → Vec2 Float32) :
    Enemy.ShotsKeep (World.host setting) origin (·.ClosedIn setting.library) World.Closed := by
  intro shot w running script emitter w' hshot hw hupdate
  obtain ⟨p, reachable, hp⟩ := hshot.script
  obtain ⟨hmotion, hw'⟩ := (shot_preserves closed hp).update reachable ⟨hshot.motion, hw⟩ hupdate
  exact ⟨⟨⟨p, reachable.update hupdate, hp⟩, hmotion⟩, hw'⟩

/-- The tick of an enemy keeps what its script executes, and a property of shots that every shot has
which is started. -/
theorem enemy_executes {Q : Program Enemy.Kind Float32 → Prop}
    {A : Enemy.ActiveShot Float32 → Prop} {L : Bullet.Launch Float32 → Prop}
    {script script' : Cursor Enemy.Kind Float32} {body body' : Enemy.Body Float32} {running : Bool}
    (starts : ∀ (i : Instruction Enemy.Kind Float32) body c,
      setting.library.shots.cursor? i.label = some c → A (Enemy.started i body c))
    (hscript : script.Executes Q) (hshots : ∀ shot ∈ body.shots, A shot) (hw : w.Queues L)
    (hu : Enemy.update (World.host setting) script body w = .ok (running, script', body', w')) :
    script'.Executes Q ∧ (∀ shot ∈ body'.shots, A shot) ∧ w'.Queues L := by
  obtain ⟨p, reachable, hp⟩ := hscript
  obtain ⟨w₁, hran, -⟩ := Enemy.update_cases hu
  refine ⟨⟨p, reachable.update hran, hp⟩, ?_⟩
  exact Enemy.update_keeps (World.queues_keeps setting L) (fun i _ _ => starts i) reachable hshots
    hw hu

variable {Q : Program Bullet.Kind Float32 → Prop} {L : Bullet.Launch Float32 → Prop}

theorem LiveBullet.Ran.executes {b b' : LiveBullet} (hb : ∀ c ∈ b.script, c.Executes Q)
    (hw : w.Queues L) (ran : b.Ran (World.host setting) w b' w') :
    (∀ c ∈ b'.script, c.Executes Q) ∧ w'.Queues L := by
  cases ran with
  | straight _ => exact ⟨hb, hw⟩
  | @updated c c' _ _ running hscript hu =>
      obtain ⟨p, reachable, hp⟩ := hb c hscript
      refine ⟨?_, (Bullet.update_keeps (World.queues_keeps setting L) reachable hw hu).2⟩
      obtain ⟨w₁, hran, -⟩ := Bullet.update_cases hu
      intro d hd
      cases running with
      | false => simp at hd
      | true =>
          obtain rfl : c' = d := by simpa using hd
          exact ⟨p, reachable.update hran, hp⟩

/-- The tick of a bullet keeps what its script executes; a bullet that it splits into has none. -/
theorem LiveBullet.step_executes (setting : Setting Float32)
    (Q : Program Bullet.Kind Float32 → Prop) :
    BulletsKeep (World.host setting) (fun b => ∀ c ∈ b.script, c.Executes Q)
      (fun launch => ∀ c ∈ launch.script, c.Executes Q)
      (World.Queues fun launch => ∀ c ∈ launch.script, c.Executes Q) := by
  intro b w b' asked w' hb hw hstep
  obtain ⟨b₁, w₁, ran, rfl, rfl, rfl⟩ := LiveBullet.step_cases hstep
  obtain ⟨hb₁, hw₁⟩ := ran.executes hb hw
  refine ⟨by simpa using hb₁, ?_, ?_⟩
  · intro launch hlaunch
    split at hlaunch
    · rw [← Option.some.inj hlaunch]
      simp [LiveBullet.split]
    · simp at hlaunch
  · unfold LiveBullet.follow
    split
    · exact (World.queues_keeps setting _).setPosition _ _ _ hw₁
    · exact hw₁

/-! ### The stage

With every actor settled, a tick and then a run of ticks follow from what is known of
the parts of a stage in general.
-/

theorem closedIn_of_ofEnemy? (closed : setting.library.Closed) {seed : UInt64} {name : String}
    (h : ofEnemy? setting seed name = some s) : s.ClosedIn setting.library := by
  obtain ⟨has, same⟩ := has_of_ofEnemy? (P := .closedIn setting.library) h
    fun _ => Registry.executes_of_cursor? closed.enemies
  exact closedIn_iff.mpr ⟨congrArg _ same, has⟩

/-- Scripts come from the library only, where all of them are closed. -/
theorem closedIn_kept (closed : setting.library.Closed) :
    (Parts.closedIn setting.library).Kept setting where
  enemy _ _ _ _ _ _ _ hscript hshots hw hu :=
    enemy_executes (fun i body _ => Enemy.started_closedIn closed i body) hscript hshots hw hu
  shots := shotsKeep closed
  bullets := LiveBullet.step_executes setting Program.CallsDeclared
  takesOff := fun _ _ h => h

theorem Reaches.closedIn (closed : library.Closed) (h : s.ClosedIn library)
    (reaches : s.Reaches s') : s'.ClosedIn library := by
  obtain ⟨rfl, has⟩ := closedIn_iff.mp h
  obtain ⟨has', hsetting⟩ := reaches.has (closedIn_kept closed) has
  exact closedIn_iff.mpr ⟨congrArg _ hsetting, has'⟩

end Stage

/-! ### Turns

A turn is a point within a tick, which need not come to an end.  The invariant holds
there because it holds before the tick and is kept by the turns that come first.
-/

namespace Actor

/-- The script of the actor uses names of the library only. -/
def ClosedIn (library : Library Float32) : Actor Float32 → Prop
  | bullet script _ => Bullet.ScriptClosed script
  | shot script emitter =>
      script.Executes (Shot.ClosedIn library) ∧ Shot.MotionKnown library emitter.motion
  | enemy script body =>
      script.Executes (Enemy.ClosedIn library) ∧ ∀ shot ∈ body.shots, shot.ClosedIn library

/-- The script of the actor has been stopped at a call whose label is not there. -/
def MissesLabel : Actor Float32 → Prop
  | bullet script _ => ∃ c ∈ script, c.MissesLabel
  | shot script _ => script.MissesLabel
  | enemy script _ => script.MissesLabel

theorem ClosedIn.update {η : Type} {host : Host Float32 η} {h h' : η} {report : TickReport}
    {actor actor' : Actor Float32} (closed : actor.ClosedIn library)
    (hupdate : actor.update host h = .ok (report, actor', h')) : ¬ actor'.MissesLabel := by
  cases actor with
  | bullet script motion =>
      cases script with
      | none =>
          cases hupdate
          simp [MissesLabel]
      | some script =>
          obtain ⟨⟨running, script', motion', h₁⟩, hran, hupdate⟩ := bind_eq_ok.mp hupdate
          cases hupdate
          obtain ⟨h₂, hscript, -⟩ := Bullet.update_cases hran
          have hclosed := (closed script rfl).update hscript
          simpa [MissesLabel] using hclosed.not_missesLabel
  | shot script emitter =>
      obtain ⟨⟨running, script', emitter', h₁⟩, hran, hupdate⟩ := bind_eq_ok.mp hupdate
      cases hupdate
      exact ((closed.1.update hran).imp fun _ => Shot.ClosedIn.calls).not_missesLabel
  | enemy script body =>
      obtain ⟨⟨running, script', body', h₁⟩, hran, hupdate⟩ := bind_eq_ok.mp hupdate
      cases hupdate
      obtain ⟨h₂, hscript, -⟩ := Enemy.update_cases hran
      exact ((closed.1.update hscript).imp fun _ => Enemy.ClosedIn.calls).not_missesLabel

end Actor

namespace Stage

variable {s : Stage} {actor : Actor Float32} {w : World}

theorem Turn.closedIn (closed : library.Closed) (h : s.ClosedIn library) (turn : s.Turn actor w) :
    actor.ClosedIn library ∧ w.Closed := by
  obtain ⟨rfl, has⟩ := closedIn_iff.mp h
  have kept := closedIn_kept closed
  cases turn with
  | enemy present => exact ⟨⟨h.script, h.shots _ present⟩, h.queued⟩
  | shot ran _ turn =>
      obtain ⟨-, hshots, hw⟩ := ran.has kept has
      obtain ⟨hshot, hw'⟩ := turn.keeps (kept.shots _) hshots (follow_queues _ hw)
      exact ⟨⟨hshot.script, hshot.motion⟩, hw'⟩
  | @bullet s' _ _ enemy turn =>
      have hcollected := has.collected kept enemy
      exact turn.keeps (LiveBullet.step_executes s'.setting Program.CallsDeclared)
        hcollected.bullets hcollected.queued

end Stage

end Barrage
