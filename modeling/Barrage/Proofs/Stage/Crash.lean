/-
A run is brought down by an instruction of the library that may crash, and by nothing
else.

A tick crashes just if a script does that has its turn in it.  Scripts come to a stage
from its library, and the jitter of an emitter from the program that runs it, so this
script runs a program of the library with an instruction that may crash.  Any other
mistake stops the script that makes it, and the other scripts have their turns.
-/
import Barrage.Proofs.Catalog.Risk
import Barrage.Proofs.Stage.Closed
import Barrage.Proofs.Stage.Scripts

namespace Barrage

variable {η : Type} {host : Host Float32 η} {h h' : η} {e : Crash}

/-! ### Turns that crash

An actor crashes just if its script does, since writing back and moving cannot.  These
are equivalences, because it matters in both directions: a crash is traced to a script,
and a script that crashes takes its tick with it.
-/

namespace Actor

variable {script : Cursor Enemy.Kind Float32} {body : Enemy.Body Float32}

theorem update_enemy_eq_error :
    (enemy script body).update host h = .error e ↔ Enemy.update host script body h = .error e := by
  simp [update, bind_eq_error, pure, Except.pure]

theorem update_shot_eq_error {script : Cursor Shot.Kind Float32} {emitter : Shot.Emitter Float32} :
    (shot script emitter).update host h = .error e ↔
      Shot.update host script emitter h = .error e := by
  simp [update, bind_eq_error, pure, Except.pure]

theorem update_bullet_eq_error {script : Option (Cursor Bullet.Kind Float32)}
    {motion : Bullet.Motion Float32} : (bullet script motion).update host h = .error e ↔
      ∃ c ∈ script, Bullet.update host c motion h = .error e := by
  cases script <;> simp [update, bind_eq_error, pure, Except.pure]

end Actor

namespace Stage

variable {host : Host Float32 World} {bullets : List LiveBullet} {b : LiveBullet} {w : World}
  {s s' : Stage}

theorem LiveBullet.step_eq_error : b.step host w = .error e ↔
    (Actor.bullet b.script b.motion).update host w = .error e := by
  rw [Actor.update_bullet_eq_error]
  unfold LiveBullet.step LiveBullet.runScript
  cases b.script <;> simp [bind_eq_error, pure, Except.pure]

/-- The bullets crash just if one of them does in its turn. -/
theorem stepAll_eq_error : stepAll host bullets w = .error e ↔
    ∃ b w', BulletTurn host bullets w b w' ∧ b.step host w' = .error e := by
  constructor
  · intro hall
    induction bullets generalizing w with
    | nil => cases hall
    | cons first rest ih =>
        rcases bind_eq_error.mp hall with hfirst | ⟨⟨first', asked, w₁⟩, ran, hrest⟩
        · exact ⟨first, w, .now, hfirst⟩
        · rcases bind_eq_error.mp hrest with hothers | ⟨_, -, hdone⟩
          · obtain ⟨b, w', turn, hcrash⟩ := ih hothers
            exact ⟨b, w', .later ran turn, hcrash⟩
          · cases hdone
  · rintro ⟨b, w', turn, hcrash⟩
    induction turn with
    | now => exact bind_eq_error.mpr (Or.inl hcrash)
    | later ran _ ih =>
        exact bind_eq_error.mpr (Or.inr ⟨_, ran, bind_eq_error.mpr (Or.inl (ih hcrash))⟩)

/-! ### Ticks that crash

A tick is a sequence of turns, each on the world that the ones before have left.  It
crashes in the first turn that does, and a turn takes place only if none before it has
crashed.
-/

/-- The tick of the enemy crashes just if its script does, or one of its shots in its turn. -/
theorem stepEnemy_eq_error : s.stepEnemy = .error e ↔
    (∃ body ∈ s.enemy, Enemy.update s.host s.script body s.world = .error e) ∨
      ∃ running script body w, s.EnemyRuns running script body w ∧ body.dead = false ∧
        Enemy.tickShots s.host body.integrate (s.follow body.integrate w) = .error e := by
  unfold stepEnemy EnemyRuns
  cases henemy : s.enemy with
  | none => simp
  | some before =>
      simp only [bind_eq_error, Option.mem_def, Option.some.injEq, exists_eq_left']
      refine or_congr_right ?_
      constructor
      · rintro ⟨⟨running, script, body, w⟩, hupdate, hstep⟩
        dsimp only at hstep
        by_cases hdead : body.dead = true
        · rw [if_pos hdead] at hstep
          cases hstep
        rw [if_neg hdead] at hstep
        refine ⟨running, script, body, w, hupdate, Bool.eq_false_of_not_eq_true hdead, ?_⟩
        rcases bind_eq_error.mp hstep with hshots | ⟨⟨left, body', w'⟩, -, hrest⟩
        · exact hshots
        · split at hrest
          · cases hrest
          · split at hrest <;> cases hrest
      · rintro ⟨running, script, body, w, hupdate, alive, hshots⟩
        refine ⟨(running, script, body, w), hupdate, ?_⟩
        dsimp only
        rw [if_neg (by simp [alive])]
        exact bind_eq_error.mpr (Or.inl hshots)

theorem stepBullets_eq_error : s.stepBullets = .error e ↔
    stepAll s.host s.bullets s.world = .error e := by
  simp [stepBullets, bind_eq_error, pure, Except.pure]

/-- The bullets of a tick see the same host as the enemy. -/
theorem begun_host (henemy : s.begun.stepEnemy = .ok s') : s'.host = s.host := by
  have same : s'.setting = s.begun.setting := stepEnemy_setting henemy
  exact congrArg World.host same

/-- A tick crashes just if a script does that has its turn in it. -/
theorem step_eq_error : s.step = .error e ↔
    ∃ actor w, s.Turn actor w ∧ actor.update s.host w = .error e := by
  constructor
  · intro hstep
    rcases bind_eq_error.mp hstep with henemy | ⟨s₁, henemy, hrest⟩
    · rcases stepEnemy_eq_error.mp henemy with
        ⟨body, present, hcrash⟩ | ⟨running, script, body, w, ran, alive, hshots⟩
      · exact ⟨_, _, .enemy present, Actor.update_enemy_eq_error.mpr hcrash⟩
      · obtain ⟨shot, w', turn, hcrash⟩ :=
          Enemy.advanceShots_eq_error.mp (Enemy.tickShots_eq_error.mp hshots)
        exact ⟨_, _, .shot ran alive turn, Actor.update_shot_eq_error.mpr hcrash⟩
    · rcases bind_eq_error.mp hrest with hbullets | ⟨_, -, hdone⟩
      · obtain ⟨b, w, turn, hcrash⟩ := stepAll_eq_error.mp (stepBullets_eq_error.mp hbullets)
        refine ⟨_, _, .bullet henemy turn, ?_⟩
        rw [← begun_host henemy]
        exact LiveBullet.step_eq_error.mp hcrash
      · cases hdone
  · rintro ⟨actor, w, turn, hcrash⟩
    cases turn with
    | enemy present =>
        have henemy := stepEnemy_eq_error (s := s.begun).mpr
          (Or.inl ⟨_, present, Actor.update_enemy_eq_error.mp hcrash⟩)
        exact bind_eq_error.mpr (Or.inl henemy)
    | shot ran alive turn =>
        have hshots := Enemy.tickShots_eq_error.mpr
          (Enemy.advanceShots_eq_error.mpr ⟨_, _, turn, Actor.update_shot_eq_error.mp hcrash⟩)
        have henemy := stepEnemy_eq_error (s := s.begun).mpr
          (Or.inr ⟨_, _, _, _, ran, alive, hshots⟩)
        exact bind_eq_error.mpr (Or.inl henemy)
    | @bullet s₁ _ _ henemy turn =>
        rw [← begun_host henemy] at hcrash
        have hall := stepAll_eq_error.mpr ⟨_, _, turn, LiveBullet.step_eq_error.mpr hcrash⟩
        have hbullets := (stepBullets_eq_error (s := s₁.collect)).mpr hall
        exact bind_eq_error.mpr (Or.inr ⟨s₁, henemy, bind_eq_error.mpr (Or.inl hbullets)⟩)

/-- A run that crashes has led to a tick that does. -/
theorem reaches_of_run_error {limit : Nat} (hrun : s.run limit = .error e) :
    ∃ s', s.Reaches s' ∧ s'.step = .error e := by
  have ticks : ∀ limit seen t, s.Reaches t → runTicks limit seen t = .error e →
      ∃ s', s.Reaches s' ∧ s'.step = .error e := by
    intro limit
    induction limit with
    | zero =>
        intro seen t _ hticks
        cases hticks
    | succ limit ih =>
        intro seen t reaches hticks
        rcases bind_eq_error.mp hticks with hcrash | ⟨u, hstep, hticks⟩
        · exact ⟨t, reaches, hcrash⟩
        · dsimp only at hticks
          split at hticks
          · exact ih _ _ (reaches.tick hstep) hticks
          · cases hticks
  rcases bind_eq_error.mp hrun with hticks | ⟨_, -, hdone⟩
  · exact ticks _ _ _ .start hticks
  · cases hdone

end Stage

/-! ### Scripts of the library

Crashes come from instructions, and what matters of a script is the program it runs.
For an emitter there is one thing more: a jitter that is waiting has been put there by
some instruction, and firing is where it does harm.
-/

namespace Cursor

variable {κ α σ : Type} [Vocabulary κ] [Scalar α] {p : Program κ α} {c c' : Cursor κ α}
  {I : Interpreter κ α σ} {state state' : σ} {running : Bool}

/-- A script that has made a mistake has no more to do. -/
theorem Reachable.stops (reachable : c.Reachable p)
    (hu : c.update I state = .ok (running, c', state')) (fault : c'.fault ≠ none) :
    running = false := by
  cases reachable.settles hu with
  | waits _ faultless _ => exact absurd faultless fault
  | ended _ _ => rfl

end Cursor

namespace Actor

/-- The script of the actor runs a program of the library; the jitter of an emitter comes from
there. -/
def Registered (library : Library Float32) : Actor Float32 → Prop
  | bullet script _ => ∀ c ∈ script, c.Executes library.bullets.Holds
  | shot script emitter =>
      ∃ p, script.Reachable p ∧ library.shots.Holds p ∧ Shot.Steady p emitter
  | enemy script _ => script.Executes library.enemies.Holds

/-- The mistake that the script of the actor has been stopped for. -/
def fault? : Actor Float32 → Option ScriptError
  | bullet script _ => script.bind (·.fault)
  | shot script _ => script.fault
  | enemy script _ => script.fault

variable {library : Library Float32} {actor actor' : Actor Float32} {report : TickReport}

/-- A script crashes only where an instruction of the library may. -/
theorem Registered.risks (fair : host.DrawsFairly) (registered : actor.Registered library)
    (hcrash : actor.update host h = .error e) : library.Risks e := by
  cases actor with
  | bullet script motion =>
      obtain ⟨c, hc, hcrash⟩ := update_bullet_eq_error.mp hcrash
      obtain ⟨p, reachable, held⟩ := registered c hc
      exact .bullet held (Bullet.update_eq_error fair reachable hcrash)
  | shot script emitter =>
      obtain ⟨p, reachable, held, steady⟩ := registered
      exact .shot held
        (Shot.update_eq_error fair reachable steady (update_shot_eq_error.mp hcrash))
  | enemy script body =>
      obtain ⟨p, reachable, held⟩ := registered
      exact .enemy held (Enemy.update_eq_error fair reachable (update_enemy_eq_error.mp hcrash))

/-- A mistake stops the script that makes it. -/
theorem Registered.stops (registered : actor.Registered library)
    (hu : actor.update host h = .ok (report, actor', h')) (fault : actor'.fault? ≠ none) :
    report.running = some false := by
  cases actor with
  | bullet script motion =>
      cases script with
      | none =>
          cases hu
          exact absurd rfl fault
      | some c =>
          obtain ⟨p, reachable, -⟩ := registered c rfl
          obtain ⟨⟨running, c', motion', h₁⟩, hran, hu⟩ := bind_eq_ok.mp hu
          cases hu
          obtain ⟨h₂, hscript, -⟩ := Bullet.update_cases hran
          exact congrArg some (reachable.stops hscript fault)
  | shot script emitter =>
      obtain ⟨p, reachable, -⟩ := registered
      obtain ⟨⟨running, script', emitter', h₁⟩, hran, hu⟩ := bind_eq_ok.mp hu
      cases hu
      exact congrArg some (reachable.stops hran fault)
  | enemy script body =>
      obtain ⟨p, reachable, -⟩ := registered
      obtain ⟨⟨running, script', body', h₁⟩, hran, hu⟩ := bind_eq_ok.mp hu
      cases hu
      obtain ⟨h₂, hscript, -⟩ := Enemy.update_cases hran
      exact congrArg some (reachable.stops hscript fault)

end Actor

namespace Stage

variable {w w' : World} {s s' : Stage} {actor : Actor Float32} {setting : Setting Float32}
  {seed : UInt64} {enemy : String} {entered : Stage}

/-- All scripts run programs of the library, which the jitter of emitters comes from. -/
def Parts.registered (library : Library Float32) : Parts where
  script c := c.Executes library.enemies.Holds
  shot a := (Actor.shot a.script a.emitter).Registered library
  bullet b := ∀ c ∈ b.script, c.Executes library.bullets.Holds
  launch l := ∀ c ∈ l.script, c.Executes library.bullets.Holds

theorem registered_kept (inPlace : (World.host setting).ShufflesInPlace) :
    (Parts.registered setting.library).Kept setting where
  enemy _ _ _ _ _ _ _ hscript hshots hw hu := by
    refine enemy_executes ?_ hscript hshots hw hu
    intro i body c hname
    obtain ⟨p, hp, rfl⟩ := Registry.cursor?_eq_some.mp hname
    exact ⟨p, .start, ⟨_, hp⟩, Shot.steady_of_calm p rfl⟩
  shots origin shot w running script emitter w' := by
    rintro ⟨p, reachable, held, steady⟩ hw hu
    have start : Shot.Steady p (shot.carried origin, w).1 := steady
    have steady' := (Shot.steady_preserves inPlace p).update
      reachable start hu
    refine ⟨⟨p, reachable.update hu, held, steady'⟩, ?_⟩
    have keeps := (World.queues_keeps setting
      fun launch => ∀ c ∈ launch.script, c.Executes setting.library.bullets.Holds).toKeepsAsking
    refine (shots_keep keeps ?_ origin shot w running script emitter w' ⟨p, reachable⟩ hw hu).2
    intro motion launch launched
    exact launched.carries.executes fun name p hp => ⟨name, hp⟩
  bullets := LiveBullet.step_executes setting setting.library.bullets.Holds
  takesOff _ _ h := h

/-- On every stage that ticks lead to, all scripts run programs of the library. -/
theorem Reaches.registered (inPlace : (World.host setting).ShufflesInPlace)
    (henters : ofEnemy? setting seed enemy = some entered)
    (reaches : entered.Reaches s) : s.Has (.registered setting.library) ∧ s.setting = setting := by
  obtain ⟨has, rfl⟩ := has_of_ofEnemy? (P := .registered setting.library) henters
    fun _ => Registry.executes_of_cursor? fun name p hp => ⟨name, hp⟩
  exact reaches.has (registered_kept inPlace) has

theorem Turn.registered (inPlace : s.host.ShufflesInPlace)
    (has : s.Has (.registered s.setting.library)) (turn : s.Turn actor w) :
    actor.Registered s.setting.library := by
  have kept := registered_kept inPlace
  cases turn with
  | enemy _ => exact has.script
  | shot ran _ turn =>
      obtain ⟨-, hshots, hw⟩ := ran.has kept has
      exact (turn.keeps (kept.shots _) hshots (follow_queues _ hw)).1
  | @bullet s₁ b _ henemy turn =>
      have collected := has.collected kept henemy
      exact (turn.keeps (LiveBullet.step_executes s₁.setting s.setting.library.bullets.Holds)
        collected.bullets collected.queued).1

/-! ### Completed ticks

Of the generator two facts are needed, and the host is assumed to have them: no span is
refused but one that is too wide, and a shuffle changes the order only.  They are proved
in the end, for the two theorems about runs.
-/

/-- The tick that begins at `s` is completed, and a mistake in a script stops only this script. -/
structure Completes (s : Stage) : Prop where
  tick : ∃ s', s.step = .ok s'
  /-- Every script that has its turn comes to a result. -/
  returns : ∀ actor w, s.Turn actor w → ∃ answered, actor.update s.host w = .ok answered
  /-- One that has made a mistake has no more to do. -/
  stops : ∀ actor w report actor' w', s.Turn actor w →
    actor.update s.host w = .ok (report, actor', w') → actor'.fault? ≠ none →
    report.running = some false
  /-- The shots of an enemy that is alive have their turns. -/
  shots : ∀ running script body w, s.EnemyRuns running script body w → body.dead = false →
    ∀ shot ∈ body.shots, ∃ w',
      s.Turn (.shot shot.script (shot.carried body.integrate.fireOrigin)) w'
  /-- So have the bullets on the field, and those that take off. -/
  bullets : ∀ s₁, s.begun.stepEnemy = .ok s₁ → ∀ b ∈ s₁.collect.bullets, ∃ w,
    s.Turn (.bullet b.script b.motion) w

theorem Has.completes (fair : s.host.DrawsFairly) (has : s.Has (.registered s.setting.library))
    (safe : ∀ e, ¬ s.setting.library.Risks e) : s.Completes := by
  have returns : ∀ actor w e, s.Turn actor w → actor.update s.host w ≠ .error e := by
    intro actor w e turn hcrash
    exact safe e ((turn.registered fair.inPlace has).risks fair hcrash)
  have proceeds : ∀ e, s.step ≠ .error e := by
    intro e hcrash
    obtain ⟨actor, w, turn, hcrash⟩ := step_eq_error.mp hcrash
    exact returns actor w e turn hcrash
  refine ⟨?_, ?_, ?_, ?_, ?_⟩
  · cases hstep : s.step with
    | ok s' => exact ⟨s', rfl⟩
    | error e => exact absurd hstep (proceeds e)
  · intro actor w turn
    cases hu : actor.update s.host w with
    | ok answered => exact ⟨answered, rfl⟩
    | error e => exact absurd hu (returns actor w e turn)
  · intro actor w report actor' w' turn hu fault
    exact (turn.registered fair.inPlace has).stops hu fault
  · intro running script body w ran alive shot hshot
    cases hshots : Enemy.tickShots s.host body.integrate (s.follow body.integrate w) with
    | ok moved =>
        obtain ⟨kept, hadvance, -, -⟩ := Enemy.tickShots_cases hshots
        obtain ⟨w₁, turn⟩ := Enemy.exists_shotTurn hadvance hshot
        exact ⟨w₁, .shot ran alive turn⟩
    | error e =>
        have henemy := stepEnemy_eq_error (s := s.begun).mpr
          (Or.inr ⟨running, script, body, w, ran, alive, hshots⟩)
        exact absurd (bind_eq_error.mpr (Or.inl henemy)) (proceeds e)
  · intro s₁ henemy b hb
    cases hbullets : s₁.collect.stepBullets with
    | ok s₂ =>
        obtain ⟨bullets, splits, w, hall, -⟩ := stepBullets_cases hbullets
        obtain ⟨w', turn⟩ := exists_turn hall hb
        exact ⟨w', .bullet henemy turn⟩
    | error e =>
        have hstep : s.step = .error e :=
          bind_eq_error.mpr (Or.inr ⟨s₁, henemy, bind_eq_error.mpr (Or.inl hbullets)⟩)
        exact absurd hstep (proceeds e)

section Fair

variable (fair : (World.host setting).DrawsFairly)

include fair

theorem Reaches.completes (henters : ofEnemy? setting seed enemy = some entered)
    (safe : ∀ e, ¬ setting.library.Risks e) (reaches : entered.Reaches s) : s.Completes := by
  obtain ⟨has, rfl⟩ := reaches.registered fair.inPlace henters
  exact has.completes fair safe

/-- A run that crashes does so in the turn of a script, and an instruction of the library may. -/
theorem risks_of_run_error (henters : ofEnemy? setting seed enemy = some entered) {limit : Nat}
    (hrun : entered.run limit = .error e) : setting.library.Risks e ∧
      ∃ s actor w, entered.Reaches s ∧ s.Turn actor w ∧ actor.update s.host w = .error e := by
  obtain ⟨s, reaches, hstep⟩ := reaches_of_run_error hrun
  obtain ⟨has, rfl⟩ := reaches.registered fair.inPlace henters
  obtain ⟨actor, w, turn, hcrash⟩ := step_eq_error.mp hstep
  exact ⟨(turn.registered fair.inPlace has).risks fair hcrash,
    s, actor, w, reaches, turn, hcrash⟩

theorem run_of_safe (henters : ofEnemy? setting seed enemy = some entered)
    (safe : ∀ e, ¬ setting.library.Risks e) (limit : Nat) :
    ∃ summary seen, entered.run limit = .ok (summary, seen) := by
  cases hrun : entered.run limit with
  | ok report => exact ⟨report.1, report.2, rfl⟩
  | error e => exact absurd (risks_of_run_error fair henters hrun).1 (safe e)

end Fair

/-- All that the runs need of the generator: it refuses to draw only from a span that is too wide,
and a shuffle changes nothing but the order. -/
theorem World.host_drawsFairly (setting : Setting Float32) : (World.host setting).DrawsFairly where
  uniform low high w e hdraw := by
    rcases bind_eq_error.mp hdraw with hg | ⟨_, -, hdone⟩
    · exact drawRisk_of_uniform hg
    · cases hdone
  shuffle items w := Shot.shuffle_perm items w.generator

/-- No run over the built-in patterns crashes. -/
theorem builtIn_completes {c : Catalog Float32} (hc : Catalog.builtIn = .ok c)
    (installed : setting.library = c.install) (henters : ofEnemy? setting seed enemy = some entered)
    (limit : Nat) : ∃ summary seen, entered.run limit = .ok (summary, seen) := by
  refine run_of_safe (World.host_drawsFairly setting) henters ?_ limit
  rw [installed]
  have safe := Catalog.builtIn_hazards
  rw [hc] at safe
  exact Catalog.not_risks (Except.ok.inj safe)

/--
**Only an instruction that may crash brings a run down.**  Every enemy of the library
enters, whatever the seed and the setting are.  A run that crashes does so in the turn of
a script, and then an instruction of the library limits a turn by what is no number, or
draws from a span that is too wide.  If there is none, all runs come to a summary; every
script that has its turn returns, and one that makes a mistake stops itself and no other.
This is so as far as handles are counted modulo 2 ^ 32; a stage that checks the count for
overflow ends at the entity with that number as well.
-/
theorem run_completes (setting : Setting Float32) (seed : UInt64) (enemy : String)
    (known : setting.library.enemies.contains enemy = true) :
    ∃ entered, ofEnemy? setting seed enemy = some entered ∧
      (∀ limit e, entered.run limit = .error e → setting.library.Risks e ∧
        ∃ s actor w, entered.Reaches s ∧ s.Turn actor w ∧ actor.update s.host w = .error e) ∧
      ((∀ e, ¬ setting.library.Risks e) →
        (∀ limit, ∃ summary seen, entered.run limit = .ok (summary, seen)) ∧
        ∀ s, entered.Reaches s → s.Completes) := by
  rw [Registry.contains_eq, Option.isSome_iff_exists] at known
  obtain ⟨p, hp⟩ := known
  have hscript := Registry.cursor?_eq_some.mpr ⟨p, hp, rfl⟩
  obtain ⟨entered, henters⟩ : ∃ entered, ofEnemy? setting seed enemy = some entered := by
    unfold ofEnemy?
    rw [hscript]
    exact ⟨_, rfl⟩
  have fair := World.host_drawsFairly setting
  refine ⟨entered, henters, fun limit e hrun => risks_of_run_error fair henters hrun,
    fun safe => ?_⟩
  exact ⟨run_of_safe fair henters safe, fun s reaches => reaches.completes fair henters safe⟩

/-- An enemy that calls a subroutine which is not there, and whose bullet does so too, at no speed
that is a number. -/
def stumbler : Catalog Float32 where
  bullets := [.ofInstructions "lost" "Loses its way"
    [Bullet.Command.setSpeed (0.0 / 0.0), .call "nowhere"]]
  shots := [.ofInstructions "single" "One bullet"
    [Shot.Command.attachMotion "lost", Shot.Command.randomizeNext (1.0 / 0.0),
      Shot.Command.fire 2.0]]
  enemies := [.ofInstructions "guard" "Fires and stumbles"
    [Enemy.Command.fire "single" 0, .call "nowhere"]]

def stumblerSetting : Setting Float32 where
  library := stumbler.install
  sprite? _ _ := some ⟨"orb", 4.0⟩
  path? _ := none
  player := some playerPosition

theorem run_completes_stumbler : stumblerSetting.library.enemies.contains "guard" = true ∧
    (∀ e, ¬ stumblerSetting.library.Risks e) ∧ ∃ entered body report actor w,
      ofEnemy? stumblerSetting 7 "guard" = some entered ∧ entered.enemy = some body ∧
        (Actor.enemy entered.script body).update entered.host entered.world
          = .ok (report, actor, w) ∧
        actor.fault? = some (.unknownSubroutine 1 "nowhere") ∧ report.running = some false ∧
        ∃ summary seen, entered.run 600 = .ok (summary, seen) := by
  have known : stumblerSetting.library.enemies.contains "guard" = true := by rfl
  have safe : ∀ e, ¬ stumblerSetting.library.Risks e := Catalog.not_risks (by rfl)
  obtain ⟨entered, body, report, actor, w, henters, present, hu, fault⟩ :
      ∃ entered body report actor w, ofEnemy? stumblerSetting 7 "guard" = some entered ∧
        entered.enemy = some body ∧
        (Actor.enemy entered.script body).update entered.host entered.world
          = .ok (report, actor, w) ∧
        actor.fault? = some (.unknownSubroutine 1 "nowhere") :=
    ⟨_, _, _, _, _, rfl, rfl, rfl, rfl⟩
  obtain ⟨entered', henters', -, completed⟩ := run_completes stumblerSetting 7 "guard" known
  obtain rfl := Option.some.inj (henters.symm.trans henters')
  obtain ⟨runs, completes⟩ := completed safe
  have stopped := (completes entered .start).stops _ _ _ _ _ (.enemy present) hu (by simp [fault])
  exact ⟨known, safe, entered, body, report, actor, w, henters, present, hu, fault, stopped,
    runs 600⟩

/-- An enemy whose bullet runs one instruction. -/
def turret (instruction : Instruction Bullet.Kind Float32) : Catalog Float32 where
  bullets := [.ofInstructions "guided" "Runs one instruction" [instruction]]
  shots := [.ofInstructions "single" "One bullet"
    [Shot.Command.attachMotion "guided", Shot.Command.fire 0.0]]
  enemies := [.ofInstructions "turret" "Fires and waits" [Enemy.Command.fire "single" 0, .wait 10]]

def turretSetting (instruction : Instruction Bullet.Kind Float32) : Setting Float32 :=
  { stumblerSetting with library := (turret instruction).install }

/-- A bullet that turns towards the player by at most what is no number takes the whole run down,
and so does one that turns by a random angle of almost half the largest number. -/
theorem run_crashes :
    (∃ entered, ofEnemy? (turretSetting (Bullet.Command.home (0.0 / 0.0) 10)) 0 "turret"
        = some entered ∧ entered.run 2 = .error .turnLimit) ∧
      ∃ entered, ofEnemy? (turretSetting (Bullet.Command.jitter (Float32.ofBits 0x7effffff))) 0
        "turret" = some entered ∧ entered.run 2 = .error .spanTooWide := by
  refine ⟨⟨_, rfl, ?_⟩, _, rfl, ?_⟩ <;> rfl

end Stage

end Barrage
