/-
What a tick of the stage runs, and on what.

The tick of the enemy comes out in one of five ways, listed in `EnemyTick`.  The shots of
an enemy and the bullets on the field take turns, each on the world that the ones before
have left behind, and `Turn` says of every script that a tick runs what it is run on.
It does not ask for the tick to be completed: a script has its turn also if a later one
crashes.
-/
import Barrage.Proofs.Enemy.Shots
import Barrage.Stage.Run

namespace Barrage

namespace Stage

/-! ### The bullets on the field

A tick of a bullet is a run of its script and a fixed sequel, `flown` and `follow`.
What is to be proved of a tick is proved of the run, by cases on whether there is a
script at all.
-/

variable {host : Host Float32 World} {bullets bullets' : List LiveBullet} {b b' : LiveBullet}
  {splits : List (Bullet.Launch Float32)} {w w' : World}

namespace LiveBullet

variable {asked : Option (Bullet.Launch Float32)}

@[simp] theorem refreshSprite_script (setting : Setting Float32) (b : LiveBullet) :
    (b.refreshSprite setting).script = b.script := by
  unfold refreshSprite
  dsimp only
  split <;> rfl

@[simp] theorem refreshSprite_motion (setting : Setting Float32) (b : LiveBullet) :
    (b.refreshSprite setting).motion = b.motion := by
  unfold refreshSprite
  dsimp only
  split <;> rfl

/-- The bullet as a tick leaves it, whose script has left it as `b`. -/
def flown (setting : Setting Float32) (b : LiveBullet) : LiveBullet :=
  { b.refreshSprite setting with motion := { b.motion with refirePending := false }.integrate }

@[simp] theorem flown_script (setting : Setting Float32) (b : LiveBullet) :
    (b.flown setting).script = b.script :=
  refreshSprite_script setting b

@[simp] theorem flown_refirePending (setting : Setting Float32) (b : LiveBullet) :
    (b.flown setting).motion.refirePending = false :=
  rfl

/-- The world when the entity of a bullet has been brought to where the bullet is. -/
def follow (host : Host Float32 World) (b : LiveBullet) (w : World) : World :=
  match b.motion.handle with
  | some handle => host.setPosition handle b.motion.position w
  | none => w

/-- The script has run for a tick, if there is one, and was dropped if it has ended. -/
inductive Ran (host : Host Float32 World) (b : LiveBullet) (w : World) :
    LiveBullet → World → Prop
  | straight (h : b.script = none) : Ran host b w b w
  | updated {c c' : Cursor Bullet.Kind Float32} {m : Bullet.Motion Float32} {w' : World}
      {running : Bool} (h : b.script = some c)
      (hu : Bullet.update host c b.motion w = .ok (running, c', m, w')) :
      Ran host b w { b with motion := m, script := if running then some c' else none } w'

theorem ran_of_runScript (hrun : b.runScript host w = .ok (b', w')) : b.Ran host w b' w' := by
  unfold runScript at hrun
  cases hscript : b.script with
  | none =>
      simp only [hscript] at hrun
      cases hrun
      exact .straight hscript
  | some script =>
      simp only [hscript] at hrun
      obtain ⟨⟨running, script', motion, w₁⟩, hupdate, hrun⟩ := bind_eq_ok.mp hrun
      cases hrun
      exact .updated hscript hupdate

/-- A tick of a bullet runs its script and then moves it, and asks for the bullet that it splits
into, if the flag is up in between. -/
theorem step_cases (hstep : b.step host w = .ok (b', asked, w')) : ∃ b₁ w₁, b.Ran host w b₁ w₁ ∧
    b' = b₁.flown host.toSetting ∧ w' = b'.follow host w₁ ∧
    asked = if b₁.motion.refirePending then some (b₁.refreshSprite host.toSetting).split
      else none := by
  obtain ⟨⟨b₁, w₁⟩, hrun, hstep⟩ := bind_eq_ok.mp hstep
  cases hstep
  refine ⟨b₁, w₁, ran_of_runScript hrun, ?_, rfl, ?_⟩
  · unfold flown
    rw [refreshSprite_motion]
  · rw [refreshSprite_motion]

end LiveBullet

/-- The first bullet has its tick, and then the others have theirs. -/
theorem stepAll_cons (hall : stepAll host (b :: bullets) w = .ok (bullets', splits, w')) :
    ∃ b' asked w₁ rest more, b.step host w = .ok (b', asked, w₁) ∧
      stepAll host bullets w₁ = .ok (rest, more, w') ∧
      bullets' = b' :: rest ∧ splits = asked.toList ++ more := by
  obtain ⟨⟨b', asked, w₁⟩, ran, hall⟩ := bind_eq_ok.mp hall
  obtain ⟨⟨rest, more, w₂⟩, hrest, hall⟩ := bind_eq_ok.mp hall
  cases hall
  exact ⟨b', asked, w₁, rest, more, ran, hrest, rfl, rfl⟩

/-- Among some bullets that are run one after the other, it is the turn of `b`. -/
inductive BulletTurn (host : Host Float32 World) :
    List LiveBullet → World → LiveBullet → World → Prop
  | now {b : LiveBullet} {rest : List LiveBullet} {w : World} : BulletTurn host (b :: rest) w b w
  | later {first first' b : LiveBullet} {rest : List LiveBullet} {w w₁ w' : World}
      {asked : Option (Bullet.Launch Float32)} (ran : first.step host w = .ok (first', asked, w₁))
      (turn : BulletTurn host rest w₁ b w') : BulletTurn host (first :: rest) w b w'

/-- Every tick of a bullet that has `B`, on a world that has `H`, leaves them so, and a bullet that
is asked for has `L`. -/
def BulletsKeep (host : Host Float32 World) (B : LiveBullet → Prop)
    (L : Bullet.Launch Float32 → Prop) (H : World → Prop) : Prop :=
  ∀ b w b' asked w', B b → H w → b.step host w = .ok (b', asked, w') →
    B b' ∧ (∀ launch ∈ asked, L launch) ∧ H w'

variable {B : LiveBullet → Prop} {L : Bullet.Launch Float32 → Prop} {H : World → Prop}

theorem BulletTurn.keeps (keep : BulletsKeep host B L H) (hbullets : ∀ b ∈ bullets, B b) (hw : H w)
    (turn : BulletTurn host bullets w b w') : B b ∧ H w' := by
  induction turn with
  | now => exact ⟨hbullets _ List.mem_cons_self, hw⟩
  | later ran _ ih =>
      have hfirst := keep _ _ _ _ _ (hbullets _ List.mem_cons_self) hw ran
      exact ih (fun b hmem => hbullets b (List.mem_cons_of_mem _ hmem)) hfirst.2.2

theorem stepAll_keeps (keep : BulletsKeep host B L H) (hbullets : ∀ b ∈ bullets, B b) (hw : H w)
    (hall : stepAll host bullets w = .ok (bullets', splits, w')) :
    (∀ b ∈ bullets', B b) ∧ (∀ launch ∈ splits, L launch) ∧ H w' := by
  induction bullets generalizing w bullets' splits with
  | nil =>
      cases hall
      exact ⟨hbullets, fun _ hmem => absurd hmem List.not_mem_nil, hw⟩
  | cons first rest ih =>
      obtain ⟨first', asked, w₁, rest', more, ran, hothers, rfl, rfl⟩ := stepAll_cons hall
      obtain ⟨hfirst, hasked, hw₁⟩ := keep _ _ _ _ _ (hbullets _ List.mem_cons_self) hw ran
      obtain ⟨hrest, hmore, hw'⟩ :=
        ih (fun b hmem => hbullets b (List.mem_cons_of_mem _ hmem)) hw₁ hothers
      refine ⟨List.forall_mem_cons.mpr ⟨hfirst, hrest⟩, fun launch hmem => ?_, hw'⟩
      rcases List.mem_append.mp hmem with hmem | hmem
      · exact hasked launch (Option.mem_toList.mp hmem)
      · exact hmore launch hmem

/-- Every bullet has its turn in a tick that is completed. -/
theorem exists_turn (hall : stepAll host bullets w = .ok (bullets', splits, w'))
    (hmem : b ∈ bullets) : ∃ v, BulletTurn host bullets w b v := by
  induction bullets generalizing w bullets' splits w' with
  | nil => cases hmem
  | cons first rest ih =>
      obtain ⟨first', asked, w₁, rest', more, ran, hrest, -⟩ := stepAll_cons hall
      rcases List.mem_cons.mp hmem with rfl | hmem
      · exact ⟨w, .now⟩
      · obtain ⟨v, turn⟩ := ih hrest hmem
        exact ⟨v, .later ran turn⟩

/-! ### The enemy

The conditions of the five outcomes are those of the code, with the number of shots that
are left replaced by the list being empty.  Each outcome gives the stage that it leads
to as a whole, so nothing has to be unfolded again.
-/

variable {s s' : Stage}

/-- The world when the entity of the enemy has been brought to where the enemy is. -/
def follow (s : Stage) (body : Enemy.Body Float32) (w : World) : World :=
  match body.handle with
  | some handle => s.host.setPosition handle body.position w
  | none => w

/-- The enemy of the stage has run its script for a tick. -/
def EnemyRuns (s : Stage) (running : Bool) (script : Cursor Enemy.Kind Float32)
    (body : Enemy.Body Float32) (w : World) : Prop :=
  ∃ before ∈ s.enemy,
    Enemy.update s.host s.script before s.world = .ok (running, script, body, w)

/-- The enemy has survived that, has moved, and has run its shots. -/
def EnemyMoves (s : Stage) (running : Bool) (script : Cursor Enemy.Kind Float32)
    (body : Enemy.Body Float32) (w : World) : Prop :=
  ∃ acted w₁, s.EnemyRuns running script acted w₁ ∧ acted.dead = false ∧
    Enemy.tickShots s.host acted.integrate (s.follow acted.integrate w₁) =
      .ok (body.shots.length, body, w)

/-- Whether the enemy will not do anything any more. -/
def spent (running : Bool) (body : Enemy.Body Float32) : Bool :=
  !running && body.shots.isEmpty && body.velocity.isZero && body.acceleration.isZero

/-- What the tick of the enemy comes to. -/
inductive EnemyTick (s : Stage) : Stage → Prop
  | absent (h : s.enemy = none) : EnemyTick s s
  | died {running : Bool} {script : Cursor Enemy.Kind Float32} {body : Enemy.Body Float32}
      {w : World} (ran : s.EnemyRuns running script body w) (dead : body.dead = true) :
      EnemyTick s ({ s with
        script, world := dropItems (dropCount body.drops) w
        summary := { s.summary with
          drops := s.summary.drops + dropCount body.drops } }.removeEnemy body (.died s.tick))
  | left {running : Bool} {script : Cursor Enemy.Kind Float32} {body : Enemy.Body Float32}
      {w : World} (moved : s.EnemyMoves running script body w)
      (gone : outside body.position = true) :
      EnemyTick s ({ s with script, world := w, enemy := some body }.removeEnemy body
        (.left s.tick))
  | finished {running : Bool} {script : Cursor Enemy.Kind Float32} {body : Enemy.Body Float32}
      {w : World} (moved : s.EnemyMoves running script body w)
      (here : outside body.position = false) (done : spent running body = true) :
      EnemyTick s ({ s with script, world := w, enemy := some body }.removeEnemy body
        (.finished s.tick))
  | goesOn {running : Bool} {script : Cursor Enemy.Kind Float32} {body : Enemy.Body Float32}
      {w : World} (moved : s.EnemyMoves running script body w)
      (here : outside body.position = false) (more : spent running body = false) :
      EnemyTick s { s with script, world := w, enemy := some body }

theorem enemyTick_of_stepEnemy (hstep : s.stepEnemy = .ok s') : s.EnemyTick s' := by
  unfold stepEnemy at hstep
  cases henemy : s.enemy with
  | none =>
      simp only [henemy] at hstep
      cases hstep
      exact .absent henemy
  | some before =>
      simp only [henemy] at hstep
      obtain ⟨⟨running, script, acted, w₁⟩, hupdate, hstep⟩ := bind_eq_ok.mp hstep
      have ran : s.EnemyRuns running script acted w₁ := ⟨before, henemy, hupdate⟩
      dsimp only at hstep
      by_cases hdead : acted.dead = true
      · rw [if_pos hdead] at hstep
        cases hstep
        exact .died ran hdead
      rw [if_neg hdead] at hstep
      obtain ⟨⟨left, body, w⟩, hshots, hstep⟩ := bind_eq_ok.mp hstep
      obtain rfl : left = body.shots.length := by
        obtain ⟨kept, -, rfl, rfl⟩ := Enemy.tickShots_cases hshots
        rfl
      have moved : s.EnemyMoves running script body w :=
        ⟨acted, w₁, ran, Bool.eq_false_of_not_eq_true hdead, hshots⟩
      dsimp only at hstep
      have none_left : (body.shots.length == 0) = body.shots.isEmpty := by
        cases body.shots <;> rfl
      rw [none_left] at hstep
      by_cases hgone : outside body.position = true
      · rw [if_pos hgone] at hstep
        cases hstep
        exact .left moved hgone
      have here := Bool.eq_false_of_not_eq_true hgone
      rw [if_neg hgone] at hstep
      by_cases hover : spent running body = true
      · rw [if_pos (by exact hover)] at hstep
        cases hstep
        exact .finished moved here hover
      · rw [if_neg (by exact hover)] at hstep
        cases hstep
        exact .goesOn moved here (Bool.eq_false_of_not_eq_true hover)

/-! ### A tick, and ticks

The enemy has its turn first, then its shots in order, then the bullets in order, among
which are those that have just taken off.
-/

/-- In the tick that begins at `s`, it is the turn of an actor, on a world. -/
inductive Turn (s : Stage) : Actor Float32 → World → Prop
  | enemy {body : Enemy.Body Float32} (present : body ∈ s.enemy) :
      Turn s (.enemy s.script body) s.world
  | shot {running : Bool} {script : Cursor Enemy.Kind Float32} {body : Enemy.Body Float32}
      {shot : Enemy.ActiveShot Float32} {w w' : World} (ran : s.EnemyRuns running script body w)
      (alive : body.dead = false)
      (turn : Enemy.ShotTurn s.host body.integrate.fireOrigin body.integrate.shots
        (s.follow body.integrate w) shot w') :
      Turn s (.shot shot.script (shot.carried body.integrate.fireOrigin)) w'
  | bullet {s' : Stage} {b : LiveBullet} {w : World}
      (enemy : { s with tick := s.tick + 1 }.stepEnemy = .ok s')
      (turn : BulletTurn s'.host s'.collect.bullets s'.collect.world b w) :
      Turn s (.bullet b.script b.motion) w

/-- Ticks lead from one stage to another. -/
inductive Reaches (s : Stage) : Stage → Prop
  | start : Reaches s s
  | tick {t t' : Stage} (h : Reaches s t) (hstep : t.step = .ok t') : Reaches s t'

end Stage

end Barrage
