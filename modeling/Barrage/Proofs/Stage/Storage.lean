/-
The storage of a stage holds what is on it, and nothing else.

At the end of every tick the entities of the store are the enemy while it is on stage, the
bullets on the field, those in the queue and the items that were dropped, each of them
once, and all but the items stand where their owners are.

An entity has one owner at every moment, and `World.Owns` says of a world that it holds
the entities of some owners besides those of the queue.  Shots add to the queue, bullets
and the enemy move what they own, and the enemy gives its entity up when it dies.  So each
phase of a tick turns one list of owners into the next.
-/
import Barrage.Proofs.Stage.Ledger
import Barrage.Proofs.Stage.Splits

namespace Barrage.Stage

/-! ### Owners

A list of owners is a list of places, and its order does not matter.  Owners with no
handle own nothing.  The queue is kept apart: shots add to it, and the owners need not
know.
-/

/-- The entity of the enemy. -/
def bodyPlace? (body : Enemy.Body Float32) : Option Place :=
  body.handle.map (·, body.position)

/-- The entity of a bullet on the field. -/
def LiveBullet.place? (b : LiveBullet) : Option Place :=
  b.motion.handle.map (·, b.motion.position)

/-- The entities of the bullets in the queue. -/
def queuePlaces (queued : Array (Handle × Bullet.Launch Float32)) : List Place :=
  queued.toList.map fun asked => (asked.1, asked.2.position)

/-- The world holds some entities and those of the bullets in the queue, and all handles but these
last ones are `n` in number. -/
def World.Owns (w : World) (n : Nat) (places : List Place) : Prop :=
  w.store.Ledger (n + w.store.queued.size) (queuePlaces w.store.queued ++ places)

variable {setting : Setting Float32} {s s' : Stage} {w w' : World} {n : Nat}
  {places places' : List Place} {handle : Handle} {position : Vec2 Float32}

/-! ### What becomes of them

One lemma for each thing that can happen to an entity: it is moved, it is destroyed, a
new one comes into the queue, or it is dropped as an item and stays where it is.  The
owner whose entity it is stands first in the list, and `Owns.perm` brings it there.
-/

namespace World

theorem Owns.perm (h : w.Owns n places) (same : places.Perm places') :
    w.Owns n places' :=
  Store.Ledger.perm h (same.append_left _)

theorem Owns.of_store (h : w.Owns n places) (same : w'.store = w.store) :
    w'.Owns n places := by
  unfold Owns
  rw [same]
  exact h

theorem Owns.setPosition (h : w.Owns n ((handle, position) :: places))
    (position' : Vec2 Float32) :
    ((World.host setting).setPosition handle position' w).Owns n
      ((handle, position') :: places) := by
  have moved := (Store.Ledger.perm h List.perm_middle).setPosition position'
  unfold Owns
  simp only [World.host, Store.setPosition_queued]
  exact moved.perm List.perm_middle.symm

theorem Owns.setRotation (h : w.Owns n places) (handle : Handle) (rotation : Float32) :
    ((World.host setting).setRotation handle rotation w).Owns n places := by
  unfold Owns
  simp only [World.host, Store.setRotation_queued]
  exact Store.Ledger.setRotation h handle rotation

theorem Owns.destroy (h : w.Owns n ((handle, position) :: places)) :
    ((World.host setting).destroy handle w).Owns n places := by
  unfold Owns
  simp only [World.host, Store.destroy_queued]
  exact (Store.Ledger.perm h List.perm_middle).destroy

theorem Owns.ask (h : w.Owns n places) (launch : Bullet.Launch Float32) :
    (w.ask launch).Owns n places := by
  have asked := Store.Ledger.spawnBullet h launch
  unfold Owns queuePlaces
  simp only [World.ask, Store.spawnBullet]
  rw [Array.size_push, Array.toList_push, List.map_append, List.append_assoc]
  exact asked.perm List.perm_middle.symm

/-- What shots do is to ask for bullets. -/
theorem owns_keeps (setting : Setting Float32) (n : Nat) (places : List Place) :
    (World.host setting).KeepsAsking (fun _ => True) (World.Owns · n places) :=
  { World.host_keepsAside setting (fun _ h => h.of_store rfl) fun _ _ h => h.of_store rfl with
    spawnBullet := fun launch _ _ h => h.ask launch }

theorem store_keeps (setting : Setting Float32) (store : Store) :
    (World.host setting).KeepsAside fun w => w.store = store :=
  World.host_keepsAside setting (fun _ h => h) fun _ _ h => h

/-- Nobody on the stage moves an item. -/
theorem Owns.spawn (h : w.Owns n places) :
    { w with store := w.store.spawn.2 }.Owns (n + 1) ((w.store.spawn.1, .zero) :: places) := by
  have spawned := Store.Ledger.spawn h
  unfold Owns
  rw [Store.spawn_queued, Nat.add_right_comm]
  exact spawned.perm List.perm_middle.symm

theorem Owns.dropItems (h : w.Owns n places) (count : Nat) :
    ∃ items : List Place, items.length = count ∧
      (dropItems count w).Owns (n + count) (items ++ places) := by
  induction count with
  | zero => exact ⟨[], rfl, h⟩
  | succ count ih =>
      obtain ⟨items, hlength, hitems⟩ := ih
      exact ⟨_ :: items, congrArg (· + 1) hlength, hitems.spawn⟩

/-- The bullets in the queue are taken up. -/
theorem Owns.collect (h : w.Owns n places) :
    { w with store := { w.store with queued := #[] } }.Owns (n + w.store.queued.size)
      (queuePlaces w.store.queued ++ places) :=
  Store.Ledger.collect h

end World

/-! ### A tick of a bullet

The script of a bullet leaves the store as it is.  When it has run, the entity is turned
if the script has ended, and is put where the bullet is; the other owners do not notice.
-/

/-- A tick of a bullet moves its entity with it. -/
theorem LiveBullet.step_owns {b b' : LiveBullet} {asked : Option (Bullet.Launch Float32)}
    (hb : Parts.underway.bullet b) (hhandle : b.motion.handle = some handle)
    (hstep : b.step (World.host setting) w = .ok (b', asked, w'))
    (h : w.Owns n ((handle, b.motion.position) :: places)) :
    b'.motion.handle = some handle ∧ w'.Owns n ((handle, b'.motion.position) :: places) := by
  obtain ⟨b₁, w₁, ran, rfl, rfl, -⟩ := LiveBullet.step_cases hstep
  have hran : b₁.motion.handle = b.motion.handle ∧
      w₁.Owns n ((handle, b.motion.position) :: places) := by
    cases ran with
    | straight _ => exact ⟨rfl, h⟩
    | updated hscript hu =>
        obtain ⟨p, flight⟩ := hb.2 _ hscript
        obtain ⟨w₂, hupdate, hrest⟩ := Bullet.update_cases hu
        obtain ⟨same, hstore⟩ := (Bullet.interpreter_preserves (World.store_keeps setting w.store) p
          b.motion.handle).update flight.awaits.reachable ⟨rfl, rfl⟩ hupdate
        have h₂ := h.of_store hstore
        rcases hrest with rfl | ⟨told, rfl⟩
        · exact ⟨same, h₂⟩
        · exact ⟨same, h₂.setRotation told _⟩
  have kept : (b₁.flown (World.host setting).toSetting).motion.handle = some handle :=
    hran.1.trans hhandle
  refine ⟨kept, ?_⟩
  unfold LiveBullet.follow
  rw [kept]
  exact hran.2.setPosition _

/-- So do the ticks of all bullets. -/
theorem stepAll_owns {bullets bullets' : List LiveBullet}
    {launches : List (Bullet.Launch Float32)}
    (hbullets : ∀ b ∈ bullets, Parts.underway.bullet b)
    (handles : ∀ b ∈ bullets, b.motion.handle.isSome)
    (hall : stepAll (World.host setting) bullets w = .ok (bullets', launches, w'))
    (h : w.Owns n (bullets.filterMap LiveBullet.place? ++ places)) :
    (∀ b ∈ bullets', b.motion.handle.isSome) ∧
      w'.Owns n (bullets'.filterMap LiveBullet.place? ++ places) := by
  induction bullets generalizing w bullets' launches w' places with
  | nil =>
      cases hall
      exact ⟨handles, h⟩
  | cons b rest ih =>
      obtain ⟨hb, hrest⟩ := List.forall_mem_cons.mp hbullets
      obtain ⟨hhandle, handles'⟩ := List.forall_mem_cons.mp handles
      obtain ⟨handle, hhandle⟩ := Option.isSome_iff_exists.mp hhandle
      obtain ⟨b', asked, w₁, rest', others, hfirst, hothers, rfl, -⟩ := stepAll_cons hall
      have place : b.place? = some (handle, b.motion.position) := by
        simp [LiveBullet.place?, hhandle]
      rw [List.filterMap_cons_some place, List.cons_append] at h
      obtain ⟨hhandle', h₁⟩ := LiveBullet.step_owns hb hhandle hfirst h
      have place' : b'.place? = some (handle, b'.motion.position) := by
        simp [LiveBullet.place?, hhandle']
      -- the entity of the first bullet is set aside while the others are run
      obtain ⟨hkept, h₂⟩ := ih hrest handles' hothers (h₁.perm List.perm_middle.symm)
      refine ⟨List.forall_mem_cons.mpr ⟨by simp [hhandle'], hkept⟩, ?_⟩
      rw [List.filterMap_cons_some place', List.cons_append]
      exact h₂.perm List.perm_middle

/-- The entities of bullets that have left the field are destroyed. -/
theorem destroyAll_owns {gone : List LiveBullet} (handles : ∀ b ∈ gone, b.motion.handle.isSome)
    (h : w.Owns n (gone.filterMap LiveBullet.place? ++ places)) :
    (gone.foldl (LiveBullet.leave (World.host setting)) w).Owns n places := by
  induction gone generalizing w with
  | nil => exact h
  | cons b rest ih =>
      obtain ⟨hhandle, handles'⟩ := List.forall_mem_cons.mp handles
      obtain ⟨handle, hhandle⟩ := Option.isSome_iff_exists.mp hhandle
      have place : b.place? = some (handle, b.motion.position) := by
        simp [LiveBullet.place?, hhandle]
      rw [List.filterMap_cons_some place, List.cons_append] at h
      rw [List.foldl_cons, LiveBullet.leave, hhandle]
      exact ih handles' h.destroy

/-! ### A tick of the enemy

A script that dies destroys the entity and forgets the handle at once, and no script
makes any other change to the store.  This is an invariant of the interpreter; what
becomes of the entity when the enemy is taken off the stage depends on which of its two
cases holds.
-/

/-- An enemy that lives has its entity; one that has died has given it up, and the store has lost
it.  Nothing else happens to the store. -/
inductive Mortal (handle : Handle) (store : Store) : Enemy.Body Float32 × World → Prop
  | lives {body : Enemy.Body Float32} {w : World} (alive : body.dead = false)
      (has : body.handle = some handle) (same : w.store = store) : Mortal handle store (body, w)
  | died {body : Enemy.Body Float32} {w : World} (dead : body.dead = true)
      (gone : body.handle = none) (same : w.store = store.destroy handle) :
      Mortal handle store (body, w)

/-- What leaves the life and the handle of the enemy alone, and the store, changes nothing. -/
theorem Mortal.congr {store : Store} {body body' : Enemy.Body Float32}
    (h : Mortal handle store (body, w)) (dead : body'.dead = body.dead)
    (same : body'.handle = body.handle) (hstore : w'.store = w.store) :
    Mortal handle store (body', w') := by
  cases h with
  | lives alive has kept => exact .lives (dead.trans alive) (same.trans has) (hstore.trans kept)
  | died fallen gone kept => exact .died (dead.trans fallen) (same.trans gone) (hstore.trans kept)

theorem act_mortal (setting : Setting Float32) (i : Instruction Enemy.Kind Float32)
    {store : Store} {body : Enemy.Body Float32} (h : Mortal handle store (body, w)) :
    Mortal handle store (Enemy.act (World.host setting) i body w).2 := by
  unfold Enemy.act
  cases i.kind
  case die =>
    cases h with
    | lives alive has same =>
        simp only [Enemy.die, has]
        exact .died rfl rfl (by rw [← same]; rfl)
    | died dead gone same =>
        simp only [Enemy.die, gone]
        exact .died rfl rfl same
  case fire =>
    dsimp only [Enemy.startShot]
    split
    · exact h
    · exact h.congr rfl rfl rfl
  all_goals exact h.congr rfl rfl rfl

theorem enemy_mortal (setting : Setting Float32) (p : Program Enemy.Kind Float32)
    (handle : Handle) (store : Store) :
    (Enemy.interpreter (World.host setting)).Preserves p (Mortal handle store) where
  instant := by
    rintro i - ⟨body, w⟩ signal ⟨body', w'⟩ h hcall
    have hact := act_mortal setting i h
    rwa [show Enemy.act (World.host setting) i body w = (signal, body', w') from
      Except.ok.inj hcall] at hact
  timed := by
    rintro i - phase given ⟨body, w⟩ answer left ⟨body', w'⟩ h hcall
    obtain ⟨⟨position, angle, rfl⟩, hstore⟩ :=
      Enemy.timed_keeps (World.store_keeps setting w.store) rfl hcall
    exact h.congr rfl rfl hstore

/-- The enemy has its entity with it after its script has run, or has died and lost it. -/
theorem update_owns {script script' : Cursor Enemy.Kind Float32}
    {body body' : Enemy.Body Float32} {running : Bool} (hscript : ∃ p, script.Reachable p)
    (alive : body.dead = false) (has : body.handle = some handle)
    (hu : Enemy.update (World.host setting) script body w = .ok (running, script', body', w'))
    (h : w.Owns n ((handle, body.position) :: places)) :
    body'.dead = false ∧ body'.handle = some handle ∧
        w'.Owns n ((handle, body'.position) :: places) ∨
      body'.dead = true ∧ body'.handle = none ∧ w'.Owns n places := by
  obtain ⟨p, reachable⟩ := hscript
  rcases Enemy.update_tells hu with ⟨-, rest⟩ | ⟨w₁, hran, rfl⟩
  · cases rest
    exact Or.inl ⟨alive, has, h⟩
  · have mortal := (enemy_mortal setting p handle w.store).update reachable
      (.lives alive has rfl) hran
    unfold Enemy.tell
    cases mortal with
    | lives alive' has' same =>
        rw [has']
        exact Or.inl ⟨alive', rfl, ((h.of_store same).setPosition _).setRotation _ _⟩
    | died dead gone same =>
        rw [gone]
        have destroyed : ((World.host setting).destroy handle w).Owns n places := h.destroy
        exact Or.inr ⟨dead, rfl, destroyed.of_store same⟩

/-! ### The stage

Each phase of a tick takes a balanced stage to a balanced one.  Between phases the items
are known by their number only, since nobody has a handle of theirs.
-/

/-- How many handles were given out, those in the queue left out: to the enemy, to the bullets that
took off and to the items. -/
def given (s : Stage) : Nat :=
  1 + s.summary.fired + s.summary.drops

/-- The entities of the enemy and of the bullets on the field. -/
def owned (s : Stage) : List Place :=
  s.enemy.toList.filterMap bodyPlace? ++ s.bullets.filterMap LiveBullet.place?

/-- The enemy and the bullets have their entities, and the rest are those of the queue and as many
items as were dropped. -/
structure Balanced (s : Stage) : Prop where
  enemy : ∀ body ∈ s.enemy, body.dead = false ∧ body.handle.isSome
  bullets : ∀ b ∈ s.bullets, b.motion.handle.isSome
  owns : ∃ items : List Place, items.length = s.summary.drops ∧
    s.world.Owns s.given (s.owned ++ items)

/-- What the stage owns besides the enemy. -/
def others (s : Stage) (items : List Place) : List Place :=
  s.bullets.filterMap LiveBullet.place? ++ items

theorem owned_of_enemy {body : Enemy.Body Float32} (henemy : s.enemy = some body)
    (has : body.handle = some handle) (items : List Place) :
    s.owned ++ items = (handle, body.position) :: s.others items := by
  simp [owned, others, henemy, bodyPlace?, has]

theorem owned_of_none (henemy : s.enemy = none) (items : List Place) :
    s.owned ++ items = s.others items := by
  simp [owned, others, henemy]

section Enemy

variable {running : Bool} {script : Cursor Enemy.Kind Float32} {body : Enemy.Body Float32}

/-- After its script has run, the enemy lives and has its entity, or has died and lost it. -/
theorem Balanced.enemyRuns (h : s.Balanced) (underway : s.Has .underway)
    (ran : s.EnemyRuns running script body w) : ∃ items : List Place,
      items.length = s.summary.drops ∧
        ((body.dead = false ∧ ∃ handle, body.handle = some handle ∧
            w.Owns s.given ((handle, body.position) :: s.others items)) ∨
          body.dead = true ∧ body.handle = none ∧ w.Owns s.given (s.others items)) := by
  obtain ⟨before, hbefore, hu⟩ := ran
  obtain ⟨items, hlength, howns⟩ := h.owns
  obtain ⟨alive, hhandle⟩ := h.enemy before hbefore
  obtain ⟨handle, has⟩ := Option.isSome_iff_exists.mp hhandle
  rw [owned_of_enemy hbefore has] at howns
  refine ⟨items, hlength, ?_⟩
  rcases update_owns underway.script alive has hu howns with ⟨alive', has', h'⟩ | died
  · exact Or.inl ⟨alive', handle, has', h'⟩
  · exact Or.inr died

/-- After it has moved and its shots have run, the enemy has its entity with it. -/
theorem Balanced.enemyMoves (h : s.Balanced) (underway : s.Has .underway)
    (moved : s.EnemyMoves running script body w) : ∃ items handle,
      items.length = s.summary.drops ∧ body.dead = false ∧ body.handle = some handle ∧
        w.Owns s.given ((handle, body.position) :: s.others items) := by
  obtain ⟨acted, w₁, ran, alive, hshots⟩ := moved
  obtain ⟨-, hacted, -⟩ := ran.has (underway_kept s.setting) underway
  obtain ⟨items, hlength, ⟨-, handle, has, howns⟩ | ⟨dead, -, -⟩⟩ := h.enemyRuns underway ran
  · obtain ⟨shots, hadvance, rfl, -⟩ := Enemy.tickShots_cases hshots
    have followed : (s.follow acted.integrate w₁).Owns s.given
        ((handle, acted.integrate.position) :: s.others items) := by
      unfold follow
      rw [show acted.integrate.handle = some handle from has]
      exact howns.setPosition _
    have keeps := World.owns_keeps s.setting s.given
      ((handle, acted.integrate.position) :: s.others items)
    have kept := Enemy.advanceShots_keeps
      (shots_keep keeps (fun _ _ _ => trivial) acted.integrate.fireOrigin) hacted followed hadvance
    exact ⟨items, handle, hlength, alive, has, kept.2⟩
  · rw [alive] at dead
    cases dead

/-- An enemy that is taken off the stage takes its entity with it. -/
theorem Balanced.removed (bullets : ∀ b ∈ s.bullets, b.motion.handle.isSome) {items : List Place}
    (hlength : items.length = s.summary.drops) (has : body.handle = some handle)
    (howns : s.world.Owns s.given ((handle, position) :: s.others items)) (fate : Fate) :
    (s.removeEnemy body fate).Balanced := by
  refine ⟨by simp [removeEnemy], bullets, items, hlength, ?_⟩
  rw [owned_of_none rfl]
  simp only [removeEnemy, has]
  exact howns.destroy

/-- An enemy that died has no entity any more when it is taken off. -/
theorem Balanced.died (bullets : ∀ b ∈ s.bullets, b.motion.handle.isSome) {items : List Place}
    (hlength : items.length = s.summary.drops) (gone : body.handle = none)
    (howns : s.world.Owns s.given (s.others items)) (fate : Fate) :
    (s.removeEnemy body fate).Balanced := by
  refine ⟨by simp [removeEnemy], bullets, items, hlength, ?_⟩
  rw [owned_of_none rfl]
  simp only [removeEnemy, gone]
  exact howns

theorem Balanced.stepEnemy (h : s.Balanced) (underway : s.Has .underway)
    (hstep : s.stepEnemy = .ok s') : s'.Balanced := by
  cases enemyTick_of_stepEnemy hstep with
  | absent _ => exact h
  | @died running script body w ran dead =>
      obtain ⟨items, hlength, ⟨alive, -⟩ | ⟨-, gone, howns⟩⟩ := h.enemyRuns underway ran
      · rw [alive] at dead
        cases dead
      · obtain ⟨dropped, hdropped, howns'⟩ := howns.dropItems (dropCount body.drops)
        have hall : (dropped ++ items).length = s.summary.drops + dropCount body.drops := by
          rw [List.length_append, hdropped, hlength, Nat.add_comm]
        refine Balanced.died ?_ hall gone ?_ _
        · exact h.bullets
        · have given : s.given + dropCount body.drops =
              1 + s.summary.fired + (s.summary.drops + dropCount body.drops) := Nat.add_assoc _ _ _
          rw [given] at howns'
          exact howns'.perm (List.perm_append_comm_assoc _ _ _)
  | @left running script body w moved _ | @finished running script body w moved _ _ =>
      obtain ⟨items, handle, hlength, -, has, howns⟩ := h.enemyMoves underway moved
      exact Balanced.removed (s := { s with script, world := w, enemy := some body })
        h.bullets hlength has howns _
  | @goesOn running script body w moved _ _ =>
      obtain ⟨items, handle, hlength, alive, has, howns⟩ := h.enemyMoves underway moved
      refine ⟨?_, h.bullets, items, hlength, ?_⟩
      · intro body' hbody
        rw [← Option.some.inj hbody]
        exact ⟨alive, by simp [has]⟩
      · rw [owned_of_enemy rfl has]
        exact howns

end Enemy

theorem filterMap_ofLaunch (queued : Array (Handle × Bullet.Launch Float32)) :
    (queued.toList.map fun (handle, launch) => LiveBullet.ofLaunch handle launch).filterMap
      LiveBullet.place? = queuePlaces queued := by
  rw [List.filterMap_map, queuePlaces, ← List.filterMap_eq_map]
  rfl

/-- The bullets that take off come with their entities. -/
theorem Balanced.collect (h : s.Balanced) : s.collect.Balanced := by
  obtain ⟨items, hlength, howns⟩ := h.owns
  refine ⟨h.enemy, ?_, items, hlength, ?_⟩
  · intro b hb
    rcases List.mem_append.mp hb with hb | hb
    · exact h.bullets b hb
    · obtain ⟨asked, -, rfl⟩ := List.mem_map.mp hb
      rfl
  · have given : s.collect.given = s.given + s.world.store.queued.size := by
      simp only [Stage.given, Stage.collect, Array.length_toList]
      omega
    have owned : s.collect.owned = s.owned ++ queuePlaces s.world.store.queued := by
      simp only [Stage.owned, Stage.collect, List.filterMap_append, filterMap_ofLaunch,
        List.append_assoc]
    rw [given, owned, List.append_assoc]
    exact howns.collect.perm (List.perm_append_comm_assoc _ _ _)

theorem Balanced.launchSplits (h : s.Balanced) (splits : List (Bullet.Launch Float32)) :
    (s.launchSplits splits).Balanced := by
  obtain ⟨items, hlength, howns⟩ := h.owns
  rw [launchSplits_eq]
  refine ⟨h.enemy, h.bullets, items, hlength, ?_⟩
  exact List.foldlRecOn (motive := fun w : World => w.Owns s.given (s.owned ++ items)) _ _ howns
    fun w hw launch _ => hw.ask launch

theorem Balanced.cull (h : s.Balanced) : s.cull.Balanced := by
  obtain ⟨items, hlength, howns⟩ := h.owns
  refine ⟨h.enemy, ?_, items, hlength, ?_⟩
  · intro b hb
    rw [cull_bullets] at hb
    exact h.bullets b (List.mem_filter.mp hb).1
  · have parted : s.bullets.Perm ((s.bullets.filter fun b => outside b.motion.position) ++
        s.cull.bullets) := by
      rw [cull_bullets]
      exact (List.filter_append_perm _ _).symm
    have places : (s.owned ++ items).Perm
        ((s.bullets.filter fun b => outside b.motion.position).filterMap LiveBullet.place? ++
          (s.cull.owned ++ items)) := by
      have split := ((parted.filterMap LiveBullet.place?).append_left
        (s.enemy.toList.filterMap bodyPlace?)).append_right items
      rw [List.filterMap_append] at split
      refine split.trans ?_
      rw [Stage.owned, ← List.append_assoc _ _ items]
      exact (List.perm_append_comm_assoc _ _ _).append_right items
    have gone : ∀ b ∈ s.bullets.filter fun b => outside b.motion.position,
        b.motion.handle.isSome := fun b hb => h.bullets b (List.mem_filter.mp hb).1
    rw [cull_world]
    exact destroyAll_owns gone (howns.perm places)

theorem Balanced.stepBullets (h : s.Balanced) (underway : ∀ b ∈ s.bullets, Parts.underway.bullet b)
    (hstep : s.stepBullets = .ok s') : s'.Balanced := by
  obtain ⟨items, hlength, howns⟩ := h.owns
  obtain ⟨bullets, splits, w, hall, rfl⟩ := stepBullets_cases hstep
  obtain ⟨handles, hw⟩ := stepAll_owns underway h.bullets hall
    (howns.perm (by
      rw [owned, List.append_assoc]
      exact List.perm_append_comm_assoc _ _ _))
  have stepped : Balanced { s with bullets, world := w } := by
    refine ⟨h.enemy, handles, items, hlength, hw.perm ?_⟩
    rw [owned, List.append_assoc]
    exact List.perm_append_comm_assoc _ _ _
  exact (stepped.launchSplits splits).cull

/-- A tick keeps the storage balanced. -/
theorem Balanced.step (h : s.Balanced) (underway : s.Has .underway) (hstep : s.step = .ok s') :
    s'.Balanced := by
  obtain ⟨s₁, s₂, henemy, hbullets, rfl⟩ := step_cases hstep
  have begun : s.begun.Balanced := ⟨h.enemy, h.bullets, h.owns⟩
  have collected := underway.collected (underway_kept s.setting) henemy
  have done :=
    ((begun.stepEnemy underway.begun henemy).collect).stepBullets collected.bullets hbullets
  exact ⟨done.enemy, done.bullets, done.owns⟩

/-- The stage begins with one entity, that of the enemy. -/
theorem balanced_of_ofEnemy? {seed : UInt64} {name : String}
    (h : ofEnemy? setting seed name = some s) : s.Balanced := by
  obtain ⟨script, -, h⟩ := Option.bind_eq_some_iff.mp h
  cases h
  refine ⟨?_, by simp, [], rfl, ?_⟩
  · intro body hbody
    rw [← Option.some.inj hbody]
    exact ⟨rfl, rfl⟩
  · exact (Store.ledger_empty.spawn).setPosition entrance

theorem Reaches.balanced {seed : UInt64} {name : String} {entered : Stage}
    (henters : ofEnemy? setting seed name = some entered) (reaches : entered.Reaches s) :
    s.Balanced := by
  induction reaches with
  | start => exact balanced_of_ofEnemy? henters
  | tick before hstep ih => exact ih.step (before.underway henters) hstep

/-! ### What is stored

Here the ledger is read out.  As long as the handles have not come round, every handle
that is listed has its entity, every entity is listed, and none is listed twice.
-/

/-- The handle of the enemy while it is on stage, those of the bullets on the field, and those of
the bullets in the queue. -/
def handles (s : Stage) : List Handle :=
  s.enemy.toList.filterMap (·.handle) ++ s.bullets.filterMap (·.motion.handle) ++
    s.world.store.queued.toList.map (·.1)

/-- An entity is where its owner is. -/
def World.Stands (w : World) (handle : Option Handle) (position : Vec2 Float32) : Prop :=
  ∃ h, handle = some h ∧ w.store.place? h = some position

/-- The store has the entities of the enemy, of the bullets and of the items, and no others. -/
structure Stored (s : Stage) (items : List Handle) : Prop where
  dropped : items.length = s.summary.drops
  keys : s.world.store.transforms.keys.Perm ((s.handles ++ items).map (·.id))
  distinct : (s.handles ++ items).Nodup
  enemy : ∀ body ∈ s.enemy, s.world.Stands body.handle body.position
  bullets : ∀ b ∈ s.bullets, s.world.Stands b.motion.handle b.motion.position
  queued : ∀ asked ∈ s.world.store.queued, s.world.Stands (some asked.1) asked.2.position

/-- How many handles were given out. -/
def allocated (s : Stage) : Nat :=
  s.given + s.world.store.queued.size

theorem handles_perm (s : Stage) (items : List Place) :
    ((queuePlaces s.world.store.queued ++ (s.owned ++ items)).map (·.1)).Perm
      (s.handles ++ items.map (·.1)) := by
  have owned : s.owned.map (·.1) =
      s.enemy.toList.filterMap (·.handle) ++ s.bullets.filterMap (·.motion.handle) := by
    rw [Stage.owned, List.map_append, List.map_filterMap, List.map_filterMap]
    simp [bodyPlace?, LiveBullet.place?, Option.map_map, Function.comp_def]
  have queued : (queuePlaces s.world.store.queued).map (·.1) =
      s.world.store.queued.toList.map (·.1) := by
    simp [queuePlaces, Function.comp_def]
  rw [List.map_append, List.map_append, owned, queued, handles, ← List.append_assoc]
  exact List.perm_append_comm.append_right _

theorem Balanced.stored (h : s.Balanced) (room : s.allocated < 2 ^ 32) :
    ∃ items, s.Stored items := by
  obtain ⟨items, hlength, howns⟩ := h.owns
  have holds := howns.holds room
  have stands {handle : Handle} {position : Vec2 Float32} (hmem : (handle, position) ∈
      queuePlaces s.world.store.queued ++ (s.owned ++ items)) :
      s.world.Stands (some handle) position :=
    ⟨handle, rfl, (holds.exact _ _).mpr hmem⟩
  refine ⟨items.map (·.1), ?_, ?_, ?_, ?_, ?_, ?_⟩
  · rw [List.length_map, hlength]
  · have keys := holds.keys
    rw [show (fun place : Place => place.1.id) = (·.id) ∘ (·.1) from rfl, ← List.map_map] at keys
    exact keys.trans ((s.handles_perm items).map _)
  · exact (s.handles_perm items).nodup_iff.mp holds.distinct
  · intro body hbody
    obtain ⟨handle, has⟩ := Option.isSome_iff_exists.mp (h.enemy body hbody).2
    rw [has]
    refine stands (List.mem_append_right _ (List.mem_append_left _ (List.mem_append_left _ ?_)))
    exact List.mem_filterMap.mpr ⟨body, Option.mem_toList.mpr hbody, by simp [bodyPlace?, has]⟩
  · intro b hb
    obtain ⟨handle, has⟩ := Option.isSome_iff_exists.mp (h.bullets b hb)
    rw [has]
    refine stands (List.mem_append_right _ (List.mem_append_left _ (List.mem_append_right _ ?_)))
    exact List.mem_filterMap.mpr ⟨b, hb, by simp [LiveBullet.place?, has]⟩
  · intro asked hasked
    refine stands (List.mem_append_left _ ?_)
    exact List.mem_map.mpr ⟨asked, Array.mem_toList_iff.mpr hasked, rfl⟩

/--
**The store has the entities that are on the stage, and no others.**  Whatever number of
ticks have passed, the handles in the store are that of the enemy, if it is on stage,
those of the bullets on the field and in the queue, and those of as many items as were
dropped; no two of them are the same, and the enemy and the bullets stand where the store
says.  This needs that fewer handles were given out than there are: `allocated` is how
many that were.
-/
theorem storage_balanced (setting : Setting Float32) (seed : UInt64) (enemy : String)
    (entered s : Stage) (henters : ofEnemy? setting seed enemy = some entered)
    (reaches : entered.Reaches s) :
    s.world.store.Gave s.allocated ∧ (s.allocated < 2 ^ 32 → ∃ items, s.Stored items) := by
  have balanced := reaches.balanced henters
  obtain ⟨items, -, howns⟩ := balanced.owns
  exact ⟨howns.gave, balanced.stored⟩

theorem storage_balanced_splitter : ∃ entered s,
    ofEnemy? splitterSetting 7 "guard" = some entered ∧ entered.step = .ok s ∧
      s.given = 2 ∧ s.world.store.queued.size = 1 ∧ s.Stored [] := by
  obtain ⟨entered, s, henters, hstep, hbefore, hafter, hgiven, hdrops⟩ : ∃ entered s,
      ofEnemy? splitterSetting 7 "guard" = some entered ∧ entered.step = .ok s ∧
        entered.summary.refired = 0 ∧ s.summary.refired = 1 ∧ s.given = 2 ∧
        s.summary.drops = 0 := by
    refine ⟨_, _, rfl, rfl, ?_, ?_, ?_, ?_⟩ <;> rfl
  obtain ⟨splits, hsplits⟩ := exists_tickSplits hstep
  have accounted := tickSplits_accounted (underway_of_ofEnemy? henters) hstep hsplits
  have hqueued : s.world.store.queued.size = 1 := by
    have queued := congrArg List.length accounted.queued
    have counted := accounted.counted
    rw [List.length_map, List.length_map, Array.length_toList] at queued
    omega
  obtain ⟨-, stored⟩ := storage_balanced splitterSetting 7 "guard" entered s henters
    (.tick .start hstep)
  obtain ⟨items, hitems⟩ := stored (by rw [allocated, hgiven, hqueued]; decide)
  obtain rfl := List.eq_nil_of_length_eq_zero (hitems.dropped.trans hdrops)
  exact ⟨entered, s, henters, hstep, hgiven, hqueued, hitems⟩

end Barrage.Stage
