/-
What ticks keep of the parts of a stage.

A stage has four parts that scripts are in: the script of the enemy, the shots it has
started, the bullets on the field and the bullets in the queue.  A property of each of
them, together, is kept by a tick if it is kept by every tick of an enemy, of a shot and
of a bullet, and if a bullet that takes off has what was true of it in the queue.  All
that the stage does besides, it does with the world and leaves the queue alone.
-/
import Barrage.Proofs.Stage.Turn

namespace Barrage

/-! ### The queue of bullets

Of all operations of the store one adds to the queue and none takes away; the stage
itself empties it.  So what holds of every bullet in the queue is kept by any script
that asks only for bullets of which it holds.
-/

namespace Store

@[simp] theorem modify_queued (s : Store) (handle : Handle) (change : Transform → Transform) :
    (s.modify handle change).queued = s.queued := by
  unfold modify
  split <;> rfl

@[simp] theorem setPosition_queued (s : Store) (handle : Handle) (position : Vec2 Float32) :
    (s.setPosition handle position).queued = s.queued :=
  s.modify_queued handle _

@[simp] theorem setRotation_queued (s : Store) (handle : Handle) (rotation : Float32) :
    (s.setRotation handle rotation).queued = s.queued :=
  s.modify_queued handle _

@[simp] theorem destroy_queued (s : Store) (handle : Handle) :
    (s.destroy handle).queued = s.queued :=
  rfl

@[simp] theorem spawn_queued (s : Store) : s.spawn.2.queued = s.queued :=
  rfl

theorem spawnBullet_queued (s : Store) (launch : Bullet.Launch Float32) :
    ∃ handle, (s.spawnBullet launch).2.queued = s.queued.push (handle, launch) :=
  ⟨_, rfl⟩

end Store

/-- Sounds and chance leave the store alone: they are counted, and move the generator on. -/
theorem Stage.World.host_keepsAside (setting : Setting Float32) {H : World → Prop}
    (sounds : ∀ w, H w → H { w with sounds := w.sounds + 1 })
    (chance : ∀ w generator, H w → H { w with generator }) :
    (World.host setting).KeepsAside H where
  playSound _ _ w hw := sounds w hw
  uniform low high w x w' hw hdraw := by
    obtain ⟨⟨y, generator⟩, -, hdraw⟩ := bind_eq_ok.mp hdraw
    cases hdraw
    exact chance w generator hw
  shuffle _ w hw := chance w _ hw

/-- What holds of the queue stays so while scripts run, if it stays so when one of the bullets is
added that are launched. -/
theorem Stage.World.host_keeps (setting : Setting Float32) {L : Bullet.Launch Float32 → Prop}
    {Q : Array (Handle × Bullet.Launch Float32) → Prop}
    (push : ∀ queue handle launch, L launch → Q queue → Q (queue.push (handle, launch))) :
    (World.host setting).Keeps L fun w => Q w.store.queued :=
  { World.host_keepsAside setting (fun _ hq => hq) fun _ _ hq => hq with
    spawnBullet := fun launch w hl hq => by
      obtain ⟨handle, hqueued⟩ := w.store.spawnBullet_queued launch
      show Q (w.store.spawnBullet launch).2.queued
      rw [hqueued]
      exact push _ handle launch hl hq
    setPosition := fun handle position w hq => by simpa [World.host] using hq
    setRotation := fun handle rotation w hq => by simpa [World.host] using hq
    setVelocity := fun _ _ _ hq => hq
    destroy := fun handle w hq => by simpa [World.host] using hq }

namespace Stage

/-- The bullets in the queue. -/
def World.waiting (w : World) : List (Bullet.Launch Float32) :=
  w.store.queued.toList.map (·.2)

theorem World.length_waiting (w : World) : w.waiting.length = w.store.queued.size := by
  rw [waiting, List.length_map, Array.length_toList]

theorem World.waiting_congr {w w' : World} (same : w'.store.queued = w.store.queued) :
    w'.waiting = w.waiting := by
  rw [waiting, same, waiting]

/-- Every bullet in the queue is one with the property `L`. -/
def World.Queues (L : Bullet.Launch Float32 → Prop) (w : World) : Prop :=
  ∀ asked ∈ w.store.queued, L asked.2

/-- What is true of the script of the enemy, of a running shot, of a bullet on the field and of one
that is asked for. -/
structure Parts where
  script : Cursor Enemy.Kind Float32 → Prop
  shot : Enemy.ActiveShot Float32 → Prop
  bullet : LiveBullet → Prop
  launch : Bullet.Launch Float32 → Prop

/-- It is true of all parts of the stage. -/
structure Has (P : Parts) (s : Stage) : Prop where
  script : P.script s.script
  shots : ∀ body ∈ s.enemy, ∀ shot ∈ body.shots, P.shot shot
  bullets : ∀ b ∈ s.bullets, P.bullet b
  queued : s.world.Queues P.launch

/-- It stays true whatever has its tick. -/
structure Parts.Kept (P : Parts) (setting : Setting Float32) : Prop where
  enemy : ∀ script body w running script' body' w', P.script script →
    (∀ shot ∈ body.shots, P.shot shot) → w.Queues P.launch →
    Enemy.update (World.host setting) script body w = .ok (running, script', body', w') →
    P.script script' ∧ (∀ shot ∈ body'.shots, P.shot shot) ∧ w'.Queues P.launch
  shots : ∀ origin,
    Enemy.ShotsKeep (World.host setting) origin P.shot fun w => w.Queues P.launch
  bullets : BulletsKeep (World.host setting) P.bullet P.launch fun w => w.Queues P.launch
  takesOff : ∀ handle launch, P.launch launch → P.bullet (.ofLaunch handle launch)

variable {setting : Setting Float32} {s s' : Stage} {w w' : World} {P : Parts}
  {L : Bullet.Launch Float32 → Prop}

theorem World.queues_keeps (setting : Setting Float32) (L : Bullet.Launch Float32 → Prop) :
    (World.host setting).Keeps L (World.Queues L) := by
  refine World.host_keeps setting (Q := fun queue => ∀ asked ∈ queue, L asked.2) ?_
  intro queue handle launch hl hq asked hmem
  rcases Array.mem_push.mp hmem with hmem | rfl
  · exact hq asked hmem
  · exact hl

/-! ### The enemy

An enemy runs its script, moves, and runs its shots, and each of these has its own part
to keep.  When the enemy leaves the stage its shots go with it, and so nothing is left
to be said of them.
-/

/-- After the enemy's script has run. -/
theorem EnemyRuns.has {running : Bool} {script : Cursor Enemy.Kind Float32}
    {body : Enemy.Body Float32} (kept : P.Kept s.setting) (h : s.Has P)
    (ran : s.EnemyRuns running script body w) :
    P.script script ∧ (∀ shot ∈ body.shots, P.shot shot) ∧ w.Queues P.launch := by
  obtain ⟨before, hbefore, hupdate⟩ := ran
  exact kept.enemy _ _ _ _ _ _ _ h.script (h.shots before hbefore) h.queued hupdate

theorem follow_queues (body : Enemy.Body Float32) (hw : w.Queues L) :
    (s.follow body w).Queues L := by
  unfold follow
  split
  · exact (World.queues_keeps s.setting L).setPosition _ _ _ hw
  · exact hw

/-- After the enemy has moved and its shots have run. -/
theorem EnemyMoves.has {running : Bool} {script : Cursor Enemy.Kind Float32}
    {body : Enemy.Body Float32} (kept : P.Kept s.setting) (h : s.Has P)
    (moved : s.EnemyMoves running script body w) :
    P.script script ∧ (∀ shot ∈ body.shots, P.shot shot) ∧ w.Queues P.launch := by
  obtain ⟨acted, w₁, ran, -, hshots⟩ := moved
  obtain ⟨hscript, hacted, hw₁⟩ := ran.has kept h
  obtain ⟨shots, hadvance, rfl, -⟩ := Enemy.tickShots_cases hshots
  exact ⟨hscript, Enemy.advanceShots_keeps (kept.shots _) hacted (follow_queues _ hw₁) hadvance⟩

theorem dropItems_queued (count : Nat) (w : World) :
    (dropItems count w).store.queued = w.store.queued := by
  unfold dropItems
  show (Nat.repeat _ count w.store).queued = _
  induction count with
  | zero => rfl
  | succ n ih => rwa [Nat.repeat, Store.spawn_queued]

/-- Without the enemy there are no shots. -/
theorem removeEnemy_has (hscript : P.script s.script) (hbullets : ∀ b ∈ s.bullets, P.bullet b)
    (hw : s.world.Queues P.launch) (body : Enemy.Body Float32) (fate : Fate) :
    (s.removeEnemy body fate).Has P := by
  refine ⟨hscript, ?_, hbullets, ?_⟩
  · intro _ hbody
    exact absurd hbody (by simp [removeEnemy])
  · unfold removeEnemy
    dsimp only
    split
    · exact (World.queues_keeps s.setting P.launch).destroy _ _ hw
    · exact hw

theorem Has.stepEnemy (kept : P.Kept s.setting) (h : s.Has P) (hstep : s.stepEnemy = .ok s') :
    s'.Has P := by
  cases enemyTick_of_stepEnemy hstep with
  | absent _ => exact h
  | died ran _ =>
      obtain ⟨hscript, -, hw⟩ := ran.has kept h
      refine removeEnemy_has hscript ?_ ?_ _ _
      · exact h.bullets
      · intro asked hmem
        rw [show (dropItems _ _).store.queued = _ from dropItems_queued _ _] at hmem
        exact hw asked hmem
  | left moved _ | finished moved _ _ =>
      obtain ⟨hscript, -, hw⟩ := moved.has kept h
      refine removeEnemy_has hscript ?_ hw _ _
      exact h.bullets
  | @goesOn _ _ body _ moved _ _ =>
      obtain ⟨hscript, hshots, hw⟩ := moved.has kept h
      refine ⟨hscript, ?_, h.bullets, hw⟩
      intro body' hbody
      rw [← Option.some.inj hbody]
      exact hshots

/-! ### The bullets

Bullets change parts twice: they come from the queue to the field at the beginning, and
what they split into goes to the queue at the end.  In between each keeps what is true
of it.
-/

theorem Has.collect (takesOff : ∀ handle launch, P.launch launch → P.bullet (.ofLaunch handle launch))
    (h : s.Has P) : s.collect.Has P := by
  refine ⟨h.script, h.shots, ?_, ?_⟩
  · intro b hb
    rcases List.mem_append.mp hb with hb | hb
    · exact h.bullets b hb
    · obtain ⟨asked, hasked, rfl⟩ := List.mem_map.mp hb
      exact takesOff _ _ (h.queued asked (Array.mem_toList_iff.mp hasked))
  · intro asked hasked
    exact absurd hasked (by simp [Stage.collect])

/-- The world when a bullet has been asked for. -/
def World.ask (w : World) (launch : Bullet.Launch Float32) : World :=
  { w with store := (w.store.spawnBullet launch).2 }

/-- None of the splits is refused, and all are counted. -/
theorem launchSplits_eq (s : Stage) (splits : List (Bullet.Launch Float32)) :
    s.launchSplits splits = { s with
      world := splits.foldl World.ask s.world
      summary := { s.summary with refired := s.summary.refired + splits.length } } := by
  unfold launchSplits
  induction splits generalizing s with
  | nil => rfl
  | cons launch rest ih =>
      rw [List.foldl_cons, ih]
      simp [World.host, Stage.host, World.ask, Nat.add_assoc, Nat.add_comm]

theorem Has.launchSplits (h : s.Has P) {splits : List (Bullet.Launch Float32)}
    (hsplits : ∀ launch ∈ splits, P.launch launch) : (s.launchSplits splits).Has P := by
  rw [launchSplits_eq]
  refine ⟨h.script, h.shots, h.bullets, ?_⟩
  refine List.foldlRecOn _ _ h.queued fun w hw launch hmem => ?_
  exact (World.queues_keeps s.setting P.launch).spawnBullet _ _ (hsplits launch hmem) hw

/-- The world when the entity of a bullet has been destroyed. -/
def LiveBullet.leave (host : Host Float32 World) (w : World) (b : LiveBullet) : World :=
  match b.motion.handle with
  | some handle => host.destroy handle w
  | none => w

/-- The entities of the bullets that have left the field are destroyed. -/
theorem cull_world (s : Stage) : s.cull.world =
    (s.bullets.filter fun b => outside b.motion.position).foldl (LiveBullet.leave s.host) s.world := by
  show (s.bullets.partition fun b => outside b.motion.position).1.foldl _ s.world = _
  rw [List.partition_eq_filter_filter]
  rfl

/-- What is left on the field. -/
theorem cull_bullets (s : Stage) :
    s.cull.bullets = s.bullets.filter fun b => !outside b.motion.position := by
  show (s.bullets.partition fun b => outside b.motion.position).2 = _
  rw [List.partition_eq_filter_filter]
  rfl

theorem Has.cull (h : s.Has P) : s.cull.Has P := by
  refine ⟨h.script, h.shots, ?_, ?_⟩
  · intro b hb
    rw [cull_bullets] at hb
    exact h.bullets b (List.mem_filter.mp hb).1
  · rw [cull_world]
    refine List.foldlRecOn _ _ h.queued ?_
    intro w hw b _
    unfold LiveBullet.leave
    split
    · exact (World.queues_keeps s.setting P.launch).destroy _ _ hw
    · exact hw

theorem stepBullets_cases (hstep : s.stepBullets = .ok s') : ∃ bullets splits w,
    stepAll s.host s.bullets s.world = .ok (bullets, splits, w) ∧
      s' = ({ s with bullets, world := w }.launchSplits splits).cull := by
  obtain ⟨⟨bullets, splits, w⟩, hall, hstep⟩ := bind_eq_ok.mp hstep
  cases hstep
  exact ⟨bullets, splits, w, hall, rfl⟩

theorem Has.stepBullets (kept : P.Kept s.setting) (h : s.Has P) (hstep : s.stepBullets = .ok s') :
    s'.Has P := by
  obtain ⟨bullets, splits, w, hall, rfl⟩ := stepBullets_cases hstep
  obtain ⟨hbullets, hsplits, hw⟩ := stepAll_keeps kept.bullets h.bullets h.queued hall
  have stepped : Has P { s with bullets, world := w } := ⟨h.script, h.shots, hbullets, hw⟩
  exact (stepped.launchSplits hsplits).cull

/-! ### Ticks

A property of the parts is kept by a tick, and then by any number of them.  The setting
does not change, so what is assumed about it holds for all ticks alike.
-/

/-- When the enemy enters, its script is the only part there is. -/
theorem has_of_ofEnemy? {seed : UInt64} {name : String}
    (henters : ofEnemy? setting seed name = some s)
    (starts : ∀ script, setting.library.enemies.cursor? name = some script → P.script script) :
    s.Has P ∧ s.setting = setting := by
  obtain ⟨script, hscript, henters⟩ := Option.bind_eq_some_iff.mp henters
  cases henters
  refine ⟨⟨starts script hscript, ?_, ?_, ?_⟩, rfl⟩
  · intro body hbody shot hshot
    rw [← Option.some.inj hbody] at hshot
    exact absurd hshot List.not_mem_nil
  · intro b hb
    exact absurd hb List.not_mem_nil
  · intro asked hasked
    simp [Store.empty] at hasked

/-- The tick of the enemy leaves the bullets on the field alone, and all totals but two. -/
theorem stepEnemy_frame (hstep : s.stepEnemy = .ok s') : s'.bullets = s.bullets ∧
    ∃ drops fate, s'.summary = { s.summary with drops, fate } := by
  cases enemyTick_of_stepEnemy hstep <;> exact ⟨rfl, _, _, rfl⟩

theorem stepEnemy_setting (hstep : s.stepEnemy = .ok s') : s'.setting = s.setting := by
  cases enemyTick_of_stepEnemy hstep <;> rfl

theorem stepBullets_setting (hstep : s.stepBullets = .ok s') : s'.setting = s.setting := by
  obtain ⟨bullets, splits, w, -, rfl⟩ := stepBullets_cases hstep
  rw [launchSplits_eq]
  rfl

/-- The stage when a tick has begun. -/
def begun (s : Stage) : Stage :=
  { s with tick := s.tick + 1 }

theorem Has.begun (h : s.Has P) : s.begun.Has P :=
  ⟨h.script, h.shots, h.bullets, h.queued⟩

/-- A tick is that of the enemy and its shots, and then that of the bullets. -/
theorem step_cases (hstep : s.step = .ok s') : ∃ s₁ s₂,
    s.begun.stepEnemy = .ok s₁ ∧ s₁.collect.stepBullets = .ok s₂ ∧
      s' = { s₂ with summary := { s₂.summary with
        peak := max s₂.summary.peak s₂.bullets.length } } := by
  obtain ⟨s₁, henemy, hstep⟩ := bind_eq_ok.mp hstep
  obtain ⟨s₂, hbullets, hstep⟩ := bind_eq_ok.mp hstep
  cases hstep
  exact ⟨s₁, s₂, henemy, hbullets, rfl⟩

theorem step_setting (hstep : s.step = .ok s') : s'.setting = s.setting := by
  obtain ⟨s₁, s₂, henemy, hbullets, rfl⟩ := step_cases hstep
  have hfirst : s₁.setting = s.begun.setting := stepEnemy_setting henemy
  have hlater : s₂.setting = s₁.collect.setting := stepBullets_setting hbullets
  exact hlater.trans hfirst

/-- It is true of all parts again when the bullets asked for have been taken up. -/
theorem Has.collected (kept : P.Kept s.setting) (h : s.Has P)
    (henemy : s.begun.stepEnemy = .ok s') : s'.collect.Has P := by
  have kept' : P.Kept s.begun.setting := kept
  exact (h.begun.stepEnemy kept' henemy).collect kept.takesOff

theorem Has.step (kept : P.Kept s.setting) (h : s.Has P) (hstep : s.step = .ok s') : s'.Has P := by
  obtain ⟨s₁, s₂, henemy, hbullets, rfl⟩ := step_cases hstep
  have kept₁ : P.Kept s₁.collect.setting := (stepEnemy_setting henemy).symm ▸ kept
  have hdone := (h.collected kept henemy).stepBullets kept₁ hbullets
  exact ⟨hdone.script, hdone.shots, hdone.bullets, hdone.queued⟩

/-- Ticks keep what every tick keeps. -/
theorem Reaches.has (kept : P.Kept s.setting) (h : s.Has P) (reaches : s.Reaches s') :
    s'.Has P ∧ s'.setting = s.setting := by
  induction reaches with
  | start => exact ⟨h, rfl⟩
  | tick _ hstep ih =>
      obtain ⟨hhas, hsetting⟩ := ih
      exact ⟨hhas.step (hsetting.symm ▸ kept) hstep, (step_setting hstep).trans hsetting⟩

theorem reaches_of_runTicks {entered : Stage} {limit : Nat} {seen seen' : List Snapshot}
    (reaches : entered.Reaches s) (hticks : runTicks limit seen s = .ok (s', seen')) :
    entered.Reaches s' := by
  induction limit generalizing s seen with
  | zero =>
      cases hticks
      exact reaches
  | succ limit ih =>
      obtain ⟨u, hstep, hticks⟩ := bind_eq_ok.mp hticks
      dsimp only at hticks
      split at hticks
      · exact ih (reaches.tick hstep) hticks
      · cases hticks
        exact reaches.tick hstep

/-- What a run comes to is the total of a stage that ticks lead to. -/
theorem reaches_of_run {limit : Nat} {summary : Summary} {seen : List Snapshot}
    (hrun : s.run limit = .ok (summary, seen)) : ∃ s', s.Reaches s' ∧ summary = s'.totals := by
  obtain ⟨⟨s', seen'⟩, hticks, hrun⟩ := bind_eq_ok.mp hrun
  cases hrun
  exact ⟨s', reaches_of_runTicks .start hticks, rfl⟩

end Stage

end Barrage
