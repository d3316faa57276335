/-
What the scripts of a tick ask for, and which emitters count it.

A tick runs the script of the enemy, the scripts of its shots and those of the bullets,
and `TickAsks` reads off the records of all of these which bullets were asked for; those
that are launched for splits come last.  Only shots ask for bullets themselves.  What
they ask for comes into the queue, and the emitters that are dropped and those that are
kept have counted it, every bullet once.
-/
import Mathlib.Algebra.Ring.Nat
import Barrage.Proofs.Shot.Tally
import Barrage.Proofs.Stage.Splits

namespace Barrage.Stage

/-! ### What is asked for

These relations run the same scripts on the same worlds once more, on a host that keeps
a record.  What is asked for is read off the record alone; the queue and the counts of
the emitters, with which it is compared, take no part in it.
-/

/-- The bullets that some calls ask for. -/
def requests (calls : List (HostCall Float32)) : List (Bullet.Launch Float32) :=
  calls.filterMap HostCall.request?

theorem requests_append (calls more : List (HostCall Float32)) :
    requests (calls ++ more) = requests calls ++ requests more :=
  List.filterMap_append

theorem requests_aside {calls : List (HostCall Float32)} {call : HostCall Float32}
    (quiet : call.request? = none) : requests (calls ++ [call]) = requests calls := by
  rw [requests_append]
  simp [requests, quiet]

/-- A shot as its tick leaves it. -/
structure ShotTick where
  shot : Enemy.ActiveShot Float32
  /-- Whether the script has more. -/
  running : Bool
  calls : List (HostCall Float32)

/-- The bullets that a shot asks for in its tick. -/
def ShotTick.asked (tick : ShotTick) : List (Bullet.Launch Float32) :=
  requests tick.calls

/-- Some shots are run one after the other. -/
inductive ShotTicks (host : Host Float32 World) (origin : Int32 → Vec2 Float32) :
    List (Enemy.ActiveShot Float32) → World → List ShotTick → World → Prop
  | nil {w : World} : ShotTicks host origin [] w [] w
  | cons {shot : Enemy.ActiveShot Float32} {rest : List (Enemy.ActiveShot Float32)}
      {w w₁ w' : World} {running : Bool} {script : Cursor Shot.Kind Float32}
      {emitter : Shot.Emitter Float32} {calls : List (HostCall Float32)} {ticks : List ShotTick}
      (ran : Shot.update host.recorded shot.script (shot.carried origin) (w, [])
        = .ok (running, script, emitter, w₁, calls))
      (more : ShotTicks host origin rest w₁ ticks w') :
      ShotTicks host origin (shot :: rest) w
        (⟨{ shot with script, emitter }, running, calls⟩ :: ticks) w'

/-- The enemy has run its script for a tick, with these calls. -/
def EnemyCalls (s : Stage) (before : Enemy.Body Float32) (script : Cursor Enemy.Kind Float32)
    (running : Bool) (body : Enemy.Body Float32) (w : World) (calls : List (HostCall Float32)) :
    Prop :=
  s.enemy = some before ∧
    Enemy.update s.host.recorded s.script before (s.world, []) =
      .ok (running, script, body, w, calls)

/-- What is asked for in the tick of the enemy that leads to `s'`, and the emitters that are dropped
in it.  An emitter goes with the enemy, or when its shot has ended. -/
inductive EnemyAsks (s s' : Stage) :
    List (Bullet.Launch Float32) → List (Shot.Emitter Float32) → Prop
  | absent (gone : s.enemy = none) : EnemyAsks s s' [] []
  | died {before body : Enemy.Body Float32} {script : Cursor Enemy.Kind Float32} {running : Bool}
      {w : World} {calls : List (HostCall Float32)}
      (ran : s.EnemyCalls before script running body w calls) (dead : body.dead = true) :
      EnemyAsks s s' (requests calls) (before.shots.map (·.emitter))
  | lives {before body : Enemy.Body Float32} {script : Cursor Enemy.Kind Float32} {running : Bool}
      {w w' : World} {calls : List (HostCall Float32)} {ticks : List ShotTick}
      (ran : s.EnemyCalls before script running body w calls) (alive : body.dead = false)
      (shots : ShotTicks s.host body.integrate.fireOrigin body.integrate.shots
        (s.follow body.integrate w) ticks w') :
      EnemyAsks s s' (requests calls ++ ticks.flatMap ShotTick.asked)
        ((ticks.filter fun tick => !(tick.running && s'.enemy.isSome)).map (·.shot.emitter))

/-- The calls that the scripts of some bullets make, which are run one after the other. -/
inductive BulletCalls (host : Host Float32 World) :
    List LiveBullet → World → List (HostCall Float32) → Prop
  | nil {w : World} : BulletCalls host [] w []
  | straight {b b' : LiveBullet} {rest : List LiveBullet} {w w' : World}
      {asked : Option (Bullet.Launch Float32)} {calls : List (HostCall Float32)}
      (none : b.script = none) (ran : b.step host w = .ok (b', asked, w'))
      (more : BulletCalls host rest w' calls) : BulletCalls host (b :: rest) w calls
  | scripted {b b' : LiveBullet} {rest : List LiveBullet} {w w₁ w' : World}
      {asked : Option (Bullet.Launch Float32)} {c c' : Cursor Bullet.Kind Float32}
      {m : Bullet.Motion Float32} {running : Bool} {first calls : List (HostCall Float32)}
      (script : b.script = some c)
      (hu : Bullet.update host.recorded c b.motion (w, []) = .ok (running, c', m, w₁, first))
      (ran : b.step host w = .ok (b', asked, w')) (more : BulletCalls host rest w' calls) :
      BulletCalls host (b :: rest) w (first ++ calls)

/-- What is asked for in the tick that begins at `s`, and the emitters that are dropped in it. -/
inductive TickAsks (s : Stage) : List (Bullet.Launch Float32) → List (Shot.Emitter Float32) → Prop
  | intro {s₁ : Stage} {asked splits : List (Bullet.Launch Float32)}
      {dropped : List (Shot.Emitter Float32)} {calls : List (HostCall Float32)}
      {bullets : List LiveBullet} {w : World} (enemy : s.begun.stepEnemy = .ok s₁)
      (asks : s.begun.EnemyAsks s₁ asked dropped)
      (made : BulletCalls s₁.host s₁.collect.bullets s₁.collect.world calls)
      (all : stepAll s₁.host s₁.collect.bullets s₁.collect.world = .ok (bullets, splits, w)) :
      TickAsks s (asked ++ requests calls ++ splits) dropped

/-- How many bullets some emitters have counted. -/
def firedBy (emitters : List (Shot.Emitter Float32)) : Nat :=
  (emitters.map (·.fired)).sum

/-- The emitters of the enemy on stage. -/
def emitters (s : Stage) : List (Shot.Emitter Float32) :=
  s.enemy.toList.flatMap fun body => body.shots.map (·.emitter)

/-! ### Records of a stage's host

The host of a stage never refuses a bullet.  So what a record asks for is in the queue,
in the same order, and as many requests are accepted as there are.
-/

variable {setting : Setting Float32} {host : Host Float32 World} {s s' s₁ : Stage} {w w' : World}
  {calls : List (HostCall Float32)} {asked : List (Bullet.Launch Float32)}
  {dropped : List (Shot.Emitter Float32)}

/-- Since `before`, the bullets that the record asks for have come into the queue, each of them
accepted. -/
structure World.Took (before : World) (s : World × List (HostCall Float32)) : Prop where
  waiting : s.1.waiting = before.waiting ++ requests s.2
  accepted : s.2.countP HostCall.accepted = (requests s.2).length

theorem World.took_start (w : World) : w.Took (w, []) :=
  ⟨(List.append_nil _).symm, rfl⟩

/-- A call that asks for no bullet, and leaves the queue alone, keeps that. -/
theorem World.Took.aside {before : World} {call : HostCall Float32} (h : before.Took (w, calls))
    (queue : w'.store.queued = w.store.queued) (quiet : call.request? = none)
    (uncounted : call.accepted = false) : before.Took (w', calls ++ [call]) := by
  refine ⟨?_, ?_⟩
  · rw [requests_aside quiet, ← h.waiting]
    exact World.waiting_congr queue
  · rw [requests_aside quiet, List.countP_append, h.accepted]
    simp [uncounted]

theorem World.took_keeps (setting : Setting Float32) (before : World) :
    (World.host setting).recorded.Keeps (fun _ => True) before.Took where
  spawnBullet launch s _ h := by
    refine ⟨?_, ?_⟩
    · obtain ⟨handle, hqueued⟩ := s.1.store.spawnBullet_queued launch
      show (s.1.store.spawnBullet launch).2.queued.toList.map (·.2) =
        before.waiting ++ requests (s.2 ++ [_])
      rw [hqueued, Array.toList_push, List.map_append, show s.1.store.queued.toList.map _ = _ from
        h.waiting, requests_append, List.append_assoc]
      rfl
    · show (s.2 ++ [_]).countP HostCall.accepted = (requests (s.2 ++ [_])).length
      rw [List.countP_append, h.accepted, requests_append, List.length_append]
      rfl
  setPosition handle position s h := h.aside (Store.setPosition_queued _ _ _) rfl rfl
  setRotation handle rotation s h := h.aside (Store.setRotation_queued _ _ _) rfl rfl
  setVelocity _ _ s h := h.aside rfl rfl rfl
  destroy handle s h := h.aside rfl rfl rfl
  playSound _ _ s h := h.aside rfl rfl rfl
  uniform low high s x s' h hcall := by
    obtain ⟨⟨y, w₁⟩, hdraw, hcall⟩ := bind_eq_ok.mp hcall
    cases hcall
    obtain ⟨⟨z, generator⟩, -, hdraw⟩ := bind_eq_ok.mp hdraw
    cases hdraw
    exact h.aside rfl rfl rfl
  shuffle _ s h := h.aside rfl rfl rfl

/-- Scripts of enemies and of bullets ask for no bullets. -/
theorem silent_keeps (host : Host Float32 World) :
    host.recorded.Keeps (fun _ => False) fun s => requests s.2 = [] where
  spawnBullet _ _ none _ := none.elim
  setPosition _ _ _ h := (requests_aside rfl).trans h
  setRotation _ _ _ h := (requests_aside rfl).trans h
  setVelocity _ _ _ h := (requests_aside rfl).trans h
  destroy _ _ h := (requests_aside rfl).trans h
  playSound _ _ _ h := (requests_aside rfl).trans h
  uniform low high s x s' h hdraw := by
    rw [Host.recorded_uniform hdraw, requests_aside rfl]
    exact h
  shuffle _ _ h := (requests_aside rfl).trans h

/-! ### The emitters of an enemy

An enemy starts shots with a count of zero and takes none away, so its script leaves the
sum of the counts alone.  The one exception is its death, with which the shots go.
-/

@[simp] theorem firedBy_nil : firedBy [] = 0 := rfl

@[simp] theorem firedBy_cons (emitter : Shot.Emitter Float32)
    (rest : List (Shot.Emitter Float32)) :
    firedBy (emitter :: rest) = emitter.fired + firedBy rest := by
  simp [firedBy]

@[simp] theorem firedBy_append (first rest : List (Shot.Emitter Float32)) :
    firedBy (first ++ rest) = firedBy first + firedBy rest := by
  simp [firedBy]

/-- The emitters of an enemy have counted `n` bullets, unless it has died and lost them. -/
def Counted (n : Nat) (body : Enemy.Body Float32) : Prop :=
  body.dead = true ∨ firedBy (body.shots.map (·.emitter)) = n

theorem enemy_counted (host : Host Float32 World) (p : Program Enemy.Kind Float32) (n : Nat) :
    (Enemy.interpreter host).Preserves p fun state => Counted n state.1 where
  instant := by
    rintro i - ⟨body, w⟩ signal ⟨body', w'⟩ h hcall
    have hact : (Enemy.act host i body w).2.1 = body' := by rw [Except.ok.inj hcall]
    rw [← hact]
    unfold Enemy.act
    cases i.kind
    case die => exact Or.inl rfl
    case fire =>
      dsimp only [Enemy.startShot]
      split
      · exact h
      · -- the emitter of a new shot has counted nothing yet
        refine h.imp id fun counted => ?_
        simpa [Shot.Emitter.ofOrigin] using counted
    all_goals exact h
  timed := by
    rintro i - phase given ⟨body, w⟩ answer left ⟨body', w'⟩ h hcall
    obtain ⟨position, angle, rfl⟩ := Enemy.timed_moves hcall
    exact h

section Enemy

variable {before body body' : Enemy.Body Float32} {script script' : Cursor Enemy.Kind Float32}
  {running running' : Bool} {shots kept : List (Enemy.ActiveShot Float32)}
  {origin : Int32 → Vec2 Float32} {ticks : List ShotTick}

theorem EnemyCalls.runs (ran : s.EnemyCalls before script running body w calls) :
    s.EnemyRuns running script body w := by
  have hu := (ok_iff_recorded (Enemy.update_unrecorded s.script before (s.world, []))).mpr
    ⟨calls, ran.2⟩
  exact ⟨before, ran.1, hu⟩

theorem EnemyRuns.exists_calls (ran : s.EnemyRuns running script body w) :
    ∃ before calls, s.EnemyCalls before script running body w calls := by
  obtain ⟨before, present, hu⟩ := ran
  obtain ⟨calls, hrecorded⟩ :=
    (ok_iff_recorded (Enemy.update_unrecorded s.script before (s.world, []))).mp hu
  exact ⟨before, calls, present, hrecorded⟩

theorem EnemyRuns.unique (ran : s.EnemyRuns running script body w)
    (ran' : s.EnemyRuns running' script' body' w') : body' = body ∧ w' = w := by
  obtain ⟨before, present, hu⟩ := ran
  obtain ⟨before', present', hu'⟩ := ran'
  obtain rfl := Option.some.inj (present.symm.trans present')
  cases hu.symm.trans hu'
  exact ⟨rfl, rfl⟩

theorem emitters_of_enemy (present : s.enemy = some before) :
    s.emitters = before.shots.map (·.emitter) := by
  simp [emitters, present]

theorem emitters_of_none (gone : s.enemy = none) : s.emitters = [] := by
  simp [emitters, gone]

/-- The script of the enemy asks for no bullets. -/
theorem EnemyCalls.balance (underway : s.Has .underway)
    (ran : s.EnemyCalls before script running body w calls) :
    requests calls = [] ∧ w.waiting = s.world.waiting ∧ Counted (firedBy s.emitters) body := by
  obtain ⟨p, reachable⟩ := underway.script
  have silent := (Enemy.update_keeps (A := fun _ => True) (silent_keeps s.host)
    (fun _ _ _ _ _ _ => trivial) reachable (fun _ _ => trivial) rfl ran.2).2
  have took := (Enemy.update_keeps (A := fun _ => True) (World.took_keeps s.setting s.world)
    (fun _ _ _ _ _ _ => trivial) reachable (fun _ _ => trivial) s.world.took_start ran.2).2
  refine ⟨silent, ?_, ?_⟩
  · rw [took.waiting, silent, List.append_nil]
  · obtain ⟨before', present, hu⟩ := ran.runs
    obtain ⟨w₁, hscript, -⟩ := Enemy.update_cases hu
    have counted := (enemy_counted s.host p (firedBy s.emitters)).update reachable ?_ hscript
    · exact counted
    · exact Or.inr (by rw [emitters_of_enemy present])

/-! ### The shots of an enemy

Every shot counts what is accepted of its requests, and by what is known of the record
these are all.  The order of the shots is that of their bullets in the queue.
-/

theorem ShotTicks.advance (hticks : ShotTicks host origin shots w ticks w') :
    Enemy.advanceShots host origin shots w =
      .ok ((ticks.filter (·.running)).map (·.shot), w') := by
  induction hticks with
  | nil => rfl
  | @cons shot rest w w₁ w' running script emitter calls ticks ran more ih =>
      have hu := (ok_iff_recorded
        (Shot.update_unrecorded shot.script (shot.carried origin) (w, []))).mpr ⟨calls, ran⟩
      refine bind_eq_ok.mpr ⟨_, hu, bind_eq_ok.mpr ⟨_, ih, ?_⟩⟩
      cases running <;> rfl

theorem exists_shotTicks (hadvance : Enemy.advanceShots host origin shots w = .ok (kept, w')) :
    ∃ ticks, ShotTicks host origin shots w ticks w' := by
  induction shots generalizing w kept with
  | nil =>
      cases hadvance
      exact ⟨[], .nil⟩
  | cons shot rest ih =>
      obtain ⟨⟨running, script, emitter, w₁⟩, ran, hadvance⟩ := bind_eq_ok.mp hadvance
      obtain ⟨⟨others, w₂⟩, hothers, hadvance⟩ := bind_eq_ok.mp hadvance
      cases hadvance
      obtain ⟨ticks, hticks⟩ := ih hothers
      obtain ⟨calls, hrecorded⟩ := (ok_iff_recorded
        (Shot.update_unrecorded shot.script (shot.carried origin) (w, []))).mp ran
      exact ⟨_, .cons hrecorded hticks⟩

/-- What shots ask for comes into the queue, and is counted by their emitters. -/
theorem ShotTicks.balance (inPlace : (World.host setting).ShufflesInPlace)
    (hticks : ShotTicks (World.host setting) origin shots w ticks w')
    (reachable : ∀ shot ∈ shots, ∃ p, shot.script.Reachable p) :
    w'.waiting = w.waiting ++ ticks.flatMap ShotTick.asked ∧
      firedBy (ticks.map (·.shot.emitter)) =
        firedBy (shots.map (·.emitter)) + (ticks.flatMap ShotTick.asked).length := by
  induction hticks with
  | nil => simp
  | @cons shot rest w w₁ w' running script emitter calls ticks ran more ih =>
      obtain ⟨⟨p, hfirst⟩, hrest⟩ := List.forall_mem_cons.mp reachable
      obtain ⟨hwaiting, hfired⟩ := ih hrest
      have took : w.Took (w₁, calls) :=
        ((Shot.interpreter_preserves (M := fun _ => True)
          ((World.took_keeps setting w).toKeepsAsking.launching fun _ _ => trivial)
          (fun _ _ _ => trivial) trivial).update hfirst ⟨trivial, w.took_start⟩ ran).2
      have tallies := Shot.update_tallies inPlace hfirst ran
      rw [took.accepted] at tallies
      refine ⟨?_, ?_⟩
      · rw [hwaiting, took.waiting, List.flatMap_cons, List.append_assoc]
        rfl
      · simp only [List.map_cons, firedBy_cons, hfired, tallies, List.flatMap_cons,
          List.length_append, ShotTick.asked, Enemy.ActiveShot.carried]
        omega

/-! ### A tick of the enemy

The emitters before a tick are parted into those that it drops and those that it keeps.
Which of the two it is depends on whether the shot has ended, and on whether the enemy
is still there afterwards.
-/

theorem removeEnemy_waiting (s : Stage) (body : Enemy.Body Float32) (fate : Fate) :
    (s.removeEnemy body fate).world.waiting = s.world.waiting := by
  unfold removeEnemy
  dsimp only
  split <;> rfl

theorem stepEnemy_of_none (gone : s.enemy = none) (hstep : s.stepEnemy = .ok s') : s' = s := by
  unfold stepEnemy at hstep
  rw [gone] at hstep
  exact (Except.ok.inj hstep).symm

/-- If the enemy has died, it is gone, and the queue is as its script has left it. -/
theorem stepEnemy_of_dead (ran : s.EnemyRuns running script body w) (dead : body.dead = true)
    (hstep : s.stepEnemy = .ok s') : s'.enemy = none ∧ s'.world.waiting = w.waiting := by
  have moves {running' script' body' w'} (moved : s.EnemyMoves running' script' body' w') :
      False := by
    obtain ⟨acted, w₁, ran', alive, -⟩ := moved
    obtain ⟨rfl, -⟩ := ran.unique ran'
    rw [dead] at alive
    cases alive
  cases enemyTick_of_stepEnemy hstep with
  | absent gone =>
      obtain ⟨before, present, -⟩ := ran
      rw [gone] at present
      cases present
  | died ran' _ =>
      obtain ⟨rfl, rfl⟩ := ran.unique ran'
      refine ⟨rfl, ?_⟩
      rw [removeEnemy_waiting]
      exact World.waiting_congr (dropItems_queued _ _)
  | left moved _ | finished moved _ _ | goesOn moved _ _ => exact (moves moved).elim

/-- If the enemy lives, it has its shots that have more, or is gone; and the queue is as the shots
have left it. -/
theorem stepEnemy_of_alive (ran : s.EnemyRuns running script body w) (alive : body.dead = false)
    (hticks : ShotTicks s.host body.integrate.fireOrigin body.integrate.shots
      (s.follow body.integrate w) ticks w') (hstep : s.stepEnemy = .ok s') :
    s'.world.waiting = w'.waiting ∧ (s'.enemy = none ∨ s'.enemy = some { body.integrate with
      shots := (ticks.filter (·.running)).map (·.shot) }) := by
  have moves {running' script' body' v} (moved : s.EnemyMoves running' script' body' v) :
      body' = { body.integrate with shots := (ticks.filter (·.running)).map (·.shot) } ∧ v = w' := by
    obtain ⟨acted, w₁, ran', -, hshots⟩ := moved
    obtain ⟨rfl, rfl⟩ := ran.unique ran'
    obtain ⟨shots, hadvance, rfl, -⟩ := Enemy.tickShots_cases hshots
    cases hadvance.symm.trans hticks.advance
    exact ⟨rfl, rfl⟩
  cases enemyTick_of_stepEnemy hstep with
  | absent gone =>
      obtain ⟨before, present, -⟩ := ran
      rw [gone] at present
      cases present
  | died ran' dead =>
      obtain ⟨rfl, -⟩ := ran.unique ran'
      rw [alive] at dead
      cases dead
  | left moved _ | finished moved _ _ =>
      obtain ⟨-, rfl⟩ := moves moved
      exact ⟨removeEnemy_waiting _ _ _, Or.inl rfl⟩
  | goesOn moved _ _ =>
      obtain ⟨rfl, rfl⟩ := moves moved
      exact ⟨rfl, Or.inr rfl⟩

/-- The emitters that are dropped and those that are kept have counted what all of them have. -/
theorem firedBy_parted (ticks : List ShotTick) (keeps : ShotTick → Bool) :
    firedBy ((ticks.filter fun tick => !keeps tick).map (·.shot.emitter)) +
        firedBy ((ticks.filter keeps).map (·.shot.emitter)) =
      firedBy (ticks.map (·.shot.emitter)) := by
  have parted := (List.filter_append_perm keeps ticks).map fun tick => tick.shot.emitter.fired
  rw [List.map_append] at parted
  have sums := parted.sum_eq
  rw [List.sum_append, Nat.add_comm] at sums
  simpa [firedBy, Function.comp_def] using sums

/-- What is asked for in the tick of the enemy comes into the queue, and is counted by its
emitters. -/
theorem EnemyAsks.balance (inPlace : s.host.ShufflesInPlace) (underway : s.Has .underway)
    (asks : s.EnemyAsks s' asked dropped) (hstep : s.stepEnemy = .ok s') :
    s'.world.waiting = s.world.waiting ++ asked ∧
      firedBy dropped + firedBy s'.emitters = firedBy s.emitters + asked.length := by
  cases asks with
  | absent gone =>
      obtain rfl := stepEnemy_of_none gone hstep
      simp
  | died ran dead =>
      obtain ⟨silent, same, -⟩ := ran.balance underway
      obtain ⟨gone, hwaiting⟩ := stepEnemy_of_dead ran.runs dead hstep
      rw [silent, hwaiting, same, emitters_of_none gone, emitters_of_enemy ran.1]
      simp
  | @lives before body script running w w' calls ticks ran alive hticks =>
      obtain ⟨silent, same, counted⟩ := ran.balance underway
      obtain ⟨hwaiting, hafter⟩ := stepEnemy_of_alive ran.runs alive hticks hstep
      obtain ⟨-, hshots, -⟩ := ran.runs.has (underway_kept s.setting) underway
      obtain ⟨hqueue, hfired⟩ := hticks.balance inPlace hshots
      have hcounted : firedBy (body.integrate.shots.map (·.emitter)) = firedBy s.emitters := by
        rcases counted with dead | counted
        · rw [alive] at dead
          cases dead
        · exact counted
      have hfollow : (s.follow body.integrate w).waiting = w.waiting := by
        unfold follow
        split
        · exact World.waiting_congr (Store.setPosition_queued _ _ _)
        · rfl
      refine ⟨?_, ?_⟩
      · rw [hwaiting, hqueue, hfollow, same, silent, List.nil_append]
      · rw [silent, List.nil_append, ← hcounted, ← hfired]
        rcases hafter with gone | present
        · simp [emitters_of_none gone, gone]
        · rw [emitters_of_enemy present, List.map_map]
          simp only [present, Option.isSome_some, Bool.and_true]
          exact firedBy_parted ticks (·.running)

theorem exists_enemyAsks (hstep : s.stepEnemy = .ok s') :
    ∃ asked dropped, s.EnemyAsks s' asked dropped := by
  have moves {running' script' body' v} (moved : s.EnemyMoves running' script' body' v) :
      ∃ asked dropped, s.EnemyAsks s' asked dropped := by
    obtain ⟨acted, w₁, ran, alive, hshots⟩ := moved
    obtain ⟨before, calls, hcalls⟩ := ran.exists_calls
    obtain ⟨shots, hadvance, -, -⟩ := Enemy.tickShots_cases hshots
    obtain ⟨ticks, hticks⟩ := exists_shotTicks hadvance
    exact ⟨_, _, .lives hcalls alive hticks⟩
  cases enemyTick_of_stepEnemy hstep with
  | absent gone => exact ⟨_, _, .absent gone⟩
  | died ran dead =>
      obtain ⟨before, calls, hcalls⟩ := ran.exists_calls
      exact ⟨_, _, .died hcalls dead⟩
  | left moved _ | finished moved _ _ | goesOn moved _ _ => exact moves moved

end Enemy

/-! ### A tick of the bullets

Bullets have no instruction that asks for a bullet.  Their splits are asked for by the
stage, when their scripts are done.
-/

section Bullets

variable {bullets bullets' : List LiveBullet} {splits : List (Bullet.Launch Float32)}

/-- The scripts of bullets ask for no bullets. -/
theorem BulletCalls.silent (made : BulletCalls (World.host setting) bullets w calls)
    (hbullets : ∀ b ∈ bullets, Parts.underway.bullet b) : requests calls = [] := by
  induction made with
  | nil => rfl
  | @straight b b' rest w w' asked calls _ ran more ih =>
      exact ih (List.forall_mem_cons.mp hbullets).2
  | @scripted b b' rest w w₁ w' asked c c' m running first calls script hu ran more ih =>
      obtain ⟨hb, hrest⟩ := List.forall_mem_cons.mp hbullets
      obtain ⟨p, flight⟩ := hb.2 c script
      have silent := (Bullet.update_keeps (silent_keeps (World.host setting))
        flight.awaits.reachable rfl hu).2
      rw [requests_append, ih hrest]
      exact (List.append_nil _).trans silent

theorem exists_bulletCalls (hall : stepAll host bullets w = .ok (bullets', splits, w')) :
    ∃ calls, BulletCalls host bullets w calls := by
  induction bullets generalizing w bullets' splits w' with
  | nil => exact ⟨[], .nil⟩
  | cons b rest ih =>
      obtain ⟨b', asked, w₁, rest', more, ran, hrest, -⟩ := stepAll_cons hall
      obtain ⟨calls, hcalls⟩ := ih hrest
      obtain ⟨b₁, v, hran, -⟩ := LiveBullet.step_cases ran
      cases hran with
      | straight hnone => exact ⟨calls, .straight hnone ran hcalls⟩
      | updated hscript hu =>
          obtain ⟨first, hrecorded⟩ :=
            (ok_iff_recorded (Bullet.update_unrecorded _ b.motion (w, []))).mp hu
          exact ⟨first ++ calls, .scripted hscript hrecorded ran hcalls⟩

end Bullets

/-! ### A tick -/

theorem exists_tickAsks (hstep : s.step = .ok s') : ∃ asked dropped, s.TickAsks asked dropped := by
  obtain ⟨s₁, s₂, henemy, hbullets, -⟩ := step_cases hstep
  obtain ⟨bullets, splits, w, hall, -⟩ := stepBullets_cases hbullets
  obtain ⟨asked, dropped, asks⟩ := exists_enemyAsks henemy
  obtain ⟨calls, made⟩ := exists_bulletCalls hall
  exact ⟨_, dropped, .intro henemy asks made hall⟩

end Barrage.Stage
