/-
Every split of a bullet is launched once, and none is lost.

`Splits` lists, for the bullets that a tick runs, those whose scripts enter an instruction
to fire again, with the bullet at that moment and as the tick leaves it.  The list is
read off the dispatch loop and knows nothing of the flag, of the queue or of the totals.
What is proved is that these come out as the list says, in every tick and over whole
runs, and that the script of a bullet that has split goes on in the next tick, if the
bullet is still on the field then.
-/
import Barrage.Proofs.Stage.Scripts

namespace Barrage.Stage

open Bullet (Flight OnRefire handshake)

/-! ### What is listed

A script splits its bullet when it enters the instruction, and the moment is the state
of the bullet there.  The script stays on it for the rest of the tick, so the stage
still finds the bullet as it was.  Only the sprite may have been looked up again.
-/

/-- A bullet that has split in a tick. -/
structure Split where
  /-- The bullet at the moment in which its script has asked for that. -/
  moment : Bullet.Motion Float32
  /-- The bullet as the tick leaves it. -/
  after : LiveBullet

/-- The bullet that is to be launched: in the same place, of the same appearance and with the same
speed and heading as the other had at that moment, and without a script. -/
def Split.launch (split : Split) : Bullet.Launch Float32 where
  position := split.moment.position
  heading := split.moment.heading
  speed := split.moment.speed
  template := split.moment.template
  color := split.moment.color
  sprite := split.after.sprite
  angularVelocity := 0.0
  acceleration := 0.0
  script := none

/-- In its turn on a world, the script of the bullet enters an instruction to fire again. -/
def LiveBullet.Enters (host : Host Float32 World) (b : LiveBullet) (w : World)
    (t : Pulse Bullet.Kind Float32 (Bullet.Motion Float32 × World)) : Prop :=
  ∃ c, b.script = some c ∧ Bullet.Enters host c b.motion w t

/-- Some bullets are run one after the other, and these of them split. -/
inductive Splits (host : Host Float32 World) : List LiveBullet → World → List Split → Prop
  | nil {w : World} : Splits host [] w []
  | enters {b b' : LiveBullet} {rest : List LiveBullet} {w w' : World}
      {asked : Option (Bullet.Launch Float32)} {splits : List Split}
      {t : Pulse Bullet.Kind Float32 (Bullet.Motion Float32 × World)} (h : b.Enters host w t)
      (ran : b.step host w = .ok (b', asked, w')) (more : Splits host rest w' splits) :
      Splits host (b :: rest) w (⟨t.state.1, b'⟩ :: splits)
  | passes {b b' : LiveBullet} {rest : List LiveBullet} {w w' : World}
      {asked : Option (Bullet.Launch Float32)} {splits : List Split}
      (h : ∀ t, ¬ b.Enters host w t) (ran : b.step host w = .ok (b', asked, w'))
      (more : Splits host rest w' splits) : Splits host (b :: rest) w splits

/-- These bullets split in the tick that begins at `s`. -/
def TickSplits (s : Stage) (splits : List Split) : Prop :=
  ∃ s₁, s.begun.stepEnemy = .ok s₁ ∧
    Splits s₁.host s₁.collect.bullets s₁.collect.world splits

/-- Ticks lead to a stage, and all these bullets split in them. -/
inductive ReachesWith (s : Stage) : List Split → Stage → Prop
  | start : ReachesWith s [] s
  | tick {splits more : List Split} {t t' : Stage} (h : ReachesWith s splits t)
      (hstep : t.step = .ok t') (hsplits : t.TickSplits more) : ReachesWith s (splits ++ more) t'

/-! ### One bullet

Within one tick a script enters such an instruction once at most, because it stays on it
until the next one.  Here the handshake between a bullet and its stage is turned into
what the stage sees of it.
-/

variable {host : Host Float32 World} {b b' : LiveBullet} {w w' : World}
  {asked : Option (Bullet.Launch Float32)}
  {t : Pulse Bullet.Kind Float32 (Bullet.Motion Float32 × World)}

/-- The script of the bullet waits for its split to be taken up, which has been done. -/
structure LiveBullet.HasSplit (b : LiveBullet) : Prop where
  waits : ∃ c, b.script = some c ∧ OnRefire c
  clear : b.motion.refirePending = false

/-- A bullet whose script enters an instruction to fire again asks for its split. -/
theorem step_of_enters (hb : Parts.underway.bullet b) (enters : b.Enters host w t)
    (hstep : b.step host w = .ok (b', asked, w')) :
    asked = some (Split.launch ⟨t.state.1, b'⟩) ∧ b'.HasSplit := by
  obtain ⟨c, hscript, henters⟩ := enters
  obtain ⟨p, flight⟩ := hb.2 c hscript
  obtain ⟨-, -, c', hraises, on, -⟩ := (handshake p).raises host w flight henters
  obtain ⟨b₁, w₁, ran, rfl, -, rfl⟩ := LiveBullet.step_cases hstep
  cases ran with
  | straight hnone => simp [hnone] at hscript
  | updated hsome hu =>
      obtain rfl := Option.some.inj (hscript.symm.trans hsome)
      rw [hraises] at hu
      cases hu
      refine ⟨?_, ⟨c', by simp [LiveBullet.flown], on⟩, rfl⟩
      simp [LiveBullet.split, LiveBullet.flown, Split.launch]

/-- Any other bullet asks for none. -/
theorem step_of_not_enters (hb : Parts.underway.bullet b) (passes : ∀ t, ¬ b.Enters host w t)
    (hstep : b.step host w = .ok (b', asked, w')) : asked = none := by
  obtain ⟨b₁, w₁, ran, -, -, rfl⟩ := LiveBullet.step_cases hstep
  refine if_neg fun raised => ?_
  cases ran with
  | straight _ =>
      rw [hb.1] at raised
      cases raised
  | @updated c _ _ _ _ hscript hu =>
      obtain ⟨p, flight⟩ := hb.2 c hscript
      obtain ⟨t, enters⟩ := (handshake p).only host w _ flight hu hb.1 raised
      exact passes t ⟨c, hscript, enters⟩

/-! ### The bullets of a tick

Both the list of splits and the bullets asked for follow the bullets of the tick, so the
two are compared bullet by bullet.
-/

variable {setting : Setting Float32} {bullets bullets' : List LiveBullet}
  {launches : List (Bullet.Launch Float32)} {splits : List Split}

theorem exists_splits (hall : stepAll host bullets w = .ok (bullets', launches, w')) :
    ∃ splits, Splits host bullets w splits := by
  induction bullets generalizing w bullets' launches w' with
  | nil => exact ⟨[], .nil⟩
  | cons b rest ih =>
      obtain ⟨b', asked, w₁, rest', more, ran, hrest, -⟩ := stepAll_cons hall
      obtain ⟨splits, hsplits⟩ := ih hrest
      by_cases enters : ∃ t, b.Enters host w t
      · obtain ⟨t, henters⟩ := enters
        exact ⟨_, .enters henters ran hsplits⟩
      · exact ⟨_, .passes (fun t henters => enters ⟨t, henters⟩) ran hsplits⟩

/-- The bullets asked for are those that are to be launched for the splits. -/
theorem Splits.launched (hsplits : Splits (World.host setting) bullets w splits)
    (hbullets : ∀ b ∈ bullets, Parts.underway.bullet b)
    (hall : stepAll (World.host setting) bullets w = .ok (bullets', launches, w')) :
    launches = splits.map Split.launch ∧
      ∀ split ∈ splits, split.after ∈ bullets' ∧ split.after.HasSplit := by
  induction hsplits generalizing bullets' launches w' with
  | nil =>
      cases hall
      exact ⟨rfl, by simp⟩
  | enters h ran more ih =>
      obtain ⟨hb, hrest⟩ := List.forall_mem_cons.mp hbullets
      obtain ⟨b₁, asked₁, w₁, rest', others, hfirst, hothers, rfl, rfl⟩ := stepAll_cons hall
      cases ran.symm.trans hfirst
      obtain ⟨rfl, hafter⟩ := ih hrest hothers
      obtain ⟨rfl, hsplit⟩ := step_of_enters hb h ran
      refine ⟨rfl, List.forall_mem_cons.mpr ⟨⟨List.mem_cons_self, hsplit⟩, ?_⟩⟩
      intro split hmem
      exact ⟨List.mem_cons_of_mem _ (hafter split hmem).1, (hafter split hmem).2⟩
  | passes h ran more ih =>
      obtain ⟨hb, hrest⟩ := List.forall_mem_cons.mp hbullets
      obtain ⟨b₁, asked₁, w₁, rest', others, hfirst, hothers, rfl, rfl⟩ := stepAll_cons hall
      cases ran.symm.trans hfirst
      obtain ⟨rfl, hafter⟩ := ih hrest hothers
      obtain rfl := step_of_not_enters hb h ran
      refine ⟨rfl, fun split hmem => ?_⟩
      exact ⟨List.mem_cons_of_mem _ (hafter split hmem).1, (hafter split hmem).2⟩

/-! ### A tick

The queue is empty when the bullets have been taken up, and no script of a bullet adds
to it.  So at the end of the tick it has the splits and nothing besides.
-/

/-- No tick of a bullet changes the queue. -/
theorem stepAll_queued (hbullets : ∀ b ∈ bullets, Parts.underway.bullet b)
    (hall : stepAll (World.host setting) bullets w = .ok (bullets', launches, w')) :
    w'.store.queued = w.store.queued := by
  have keeps := World.host_keeps setting (L := fun _ => False) (Q := (· = w.store.queued))
    fun _ _ _ none => none.elim
  exact (stepAll_keeps (bullets_keep keeps) hbullets rfl hall).2.2

theorem askAll_waiting (w : World) (launches : List (Bullet.Launch Float32)) :
    (launches.foldl World.ask w).waiting = w.waiting ++ launches := by
  induction launches generalizing w with
  | nil => simp
  | cons launch rest ih =>
      rw [List.foldl_cons, ih]
      obtain ⟨handle, hqueued⟩ := w.store.spawnBullet_queued launch
      rw [World.waiting, show (w.ask launch).store.queued = _ from hqueued]
      simp [World.waiting]

theorem cull_queued (s : Stage) : s.cull.world.store.queued = s.world.store.queued := by
  rw [cull_world]
  refine List.foldlRecOn (motive := fun w : World => w.store.queued = s.world.store.queued) _ _ rfl ?_
  intro w hw b _
  unfold LiveBullet.leave
  split
  · exact hw
  · exact hw

/-- After the tick of the bullets, what they have asked for is in the queue, and nothing else. -/
theorem stepBullets_waiting {s s' : Stage}
    (hbullets : ∀ b ∈ s.collect.bullets, Parts.underway.bullet b)
    (hall : stepAll s.host s.collect.bullets s.collect.world = .ok (bullets', launches, w'))
    (hstep : s.collect.stepBullets = .ok s') : s'.world.waiting = launches := by
  obtain ⟨bullets'', launches', w'', hall', rfl⟩ := stepBullets_cases hstep
  cases hall.symm.trans hall'
  rw [World.waiting_congr (cull_queued _), launchSplits_eq]
  show (launches.foldl World.ask w').waiting = launches
  rw [askAll_waiting, World.waiting_congr (stepAll_queued hbullets hall)]
  rfl

/-- In its turn on a world, the script of the bullet goes on after the instruction to fire again
that it waits on. -/
def LiveBullet.GoesOn (host : Host Float32 World) (b : LiveBullet) (w : World) : Prop :=
  ∃ c t, b.script = some c ∧ OnRefire c ∧ c.finished = false ∧
    (Pulse.ofCursor c (b.motion, w)).step (Bullet.interpreter host) = .ok (.next t) ∧
    t.state = (b.motion, w) ∧ t.cursor.Idle ∧
    t.cursor.control = { c.control with ip := c.ip + 1 }

theorem LiveBullet.HasSplit.goesOn (hasSplit : b.HasSplit) (hb : Parts.underway.bullet b)
    (host : Host Float32 World) (w : World) : b.GoesOn host w := by
  obtain ⟨⟨c, hscript, on⟩, clear⟩ := hasSplit
  obtain ⟨p, flight⟩ := hb.2 c hscript
  obtain ⟨unfinished, t, hstep, hstate, idle, hcontrol⟩ :=
    (handshake p).releases host w flight on clear
  exact ⟨c, t, hscript, on, unfinished, hstep, hstate, idle, hcontrol⟩

variable {s s' s₁ : Stage}

/-- In the next tick it is the turn of a bullet. -/
def TurnsNext (s : Stage) (b : LiveBullet) (s₁ : Stage) (w : World) : Prop :=
  s.begun.stepEnemy = .ok s₁ ∧ BulletTurn s₁.host s₁.collect.bullets s₁.collect.world b w

/-- What a tick from `s` to `s'` makes of the splits in it. -/
structure Accounted (s s' : Stage) (splits : List Split) : Prop where
  counted : s'.summary.refired = s.summary.refired + splits.length
  /-- What is launched for the splits is in the queue, and nothing else is. -/
  queued : s'.world.store.queued.toList.map (·.2) = splits.map Split.launch
  waits : ∀ split ∈ splits, split.after.HasSplit
  /-- The bullets that split are on the field, but for those that have left it. -/
  remains : ∀ split ∈ splits,
    split.after ∈ s'.bullets ↔ outside split.after.motion.position = false
  /-- Those on the field have their turn in the next tick, and go on in it. -/
  turns : ∀ split ∈ splits, split.after ∈ s'.bullets → ∀ s'', s'.step = .ok s'' →
    ∃ s₁ w, s'.TurnsNext split.after s₁ w
  goesOn : ∀ split ∈ splits, split.after ∈ s'.bullets → ∀ s₁ w, s'.TurnsNext split.after s₁ w →
    split.after.GoesOn s₁.host w

theorem tickSplits_accounted (h : s.Has .underway) (hstep : s.step = .ok s')
    (hsplits : s.TickSplits splits) : s.Accounted s' splits := by
  have hnext := h.step (underway_kept s.setting) hstep
  obtain ⟨s₁, s₂, henemy, hbullets, rfl⟩ := step_cases hstep
  obtain ⟨s₁', henemy', hsplits⟩ := hsplits
  obtain rfl := Except.ok.inj (henemy.symm.trans henemy')
  have collected := h.collected (underway_kept s.setting) henemy
  obtain ⟨bullets, launches, w, hall, rfl⟩ := stepBullets_cases hbullets
  obtain ⟨rfl, hafter⟩ := hsplits.launched collected.bullets hall
  obtain ⟨-, drops, fate, htotals⟩ := stepEnemy_frame henemy
  have hqueued := stepBullets_waiting collected.bullets hall hbullets
  rw [launchSplits_eq] at hnext hqueued ⊢
  have onField : ∀ split ∈ splits, split.after ∈
      (cull { s₁.collect with
        bullets, world := (splits.map Split.launch).foldl World.ask w
        summary := { s₁.collect.summary with
          refired := s₁.collect.summary.refired + (splits.map Split.launch).length } }).bullets ↔
      outside split.after.motion.position = false := by
    intro split hmem
    rw [cull_bullets, List.mem_filter]
    simp [(hafter split hmem).1]
  refine ⟨?_, hqueued, fun split hmem => (hafter split hmem).2, onField, ?_, ?_⟩
  · show s₁.summary.refired + (splits.map Split.launch).length = _
    rw [htotals, List.length_map]
    rfl
  · intro split hmem hfield s'' hstep'
    obtain ⟨t₁, t₂, henemy', hbullets', -⟩ := step_cases hstep'
    obtain ⟨bullets', launches', w', hall', -⟩ := stepBullets_cases hbullets'
    have hmem' : split.after ∈ t₁.collect.bullets := by
      refine List.mem_append_left _ ?_
      rw [(stepEnemy_frame henemy').1]
      exact hfield
    obtain ⟨v, turn⟩ := exists_turn hall' hmem'
    exact ⟨t₁, v, henemy', turn⟩
  · intro split hmem hfield t₁ v _
    exact (hafter split hmem).2.goesOn (hnext.bullets _ hfield) _ _

theorem exists_tickSplits (hstep : s.step = .ok s') : ∃ splits, s.TickSplits splits := by
  obtain ⟨s₁, s₂, henemy, hbullets, -⟩ := step_cases hstep
  obtain ⟨bullets, launches, w, hall, -⟩ := stepBullets_cases hbullets
  obtain ⟨splits, hsplits⟩ := exists_splits hall
  exact ⟨splits, s₁, henemy, hsplits⟩

/-! ### Runs -/

theorem ReachesWith.reaches (h : s.ReachesWith splits s') : s.Reaches s' := by
  induction h with
  | start => exact .start
  | tick _ hstep _ ih => exact ih.tick hstep

theorem Reaches.exists_splits (h : s.Reaches s') : ∃ splits, s.ReachesWith splits s' := by
  induction h with
  | start => exact ⟨[], .start⟩
  | tick _ hstep ih =>
      obtain ⟨splits, before⟩ := ih
      obtain ⟨more, hmore⟩ := exists_tickSplits hstep
      exact ⟨splits ++ more, before.tick hstep hmore⟩

theorem ReachesWith.refired {seed : UInt64} {name : String} {entered : Stage}
    (henters : ofEnemy? setting seed name = some entered) (h : entered.ReachesWith splits s) :
    s.summary.refired = splits.length := by
  induction h with
  | start =>
      obtain ⟨script, -, henters⟩ := Option.bind_eq_some_iff.mp henters
      cases henters
      rfl
  | tick before hstep hsplits ih =>
      have accounted := tickSplits_accounted (before.reaches.underway henters) hstep hsplits
      rw [accounted.counted, ih, List.length_append]

/--
**No split is lost and none is doubled.**  A script raises the flag once on every visit of
an instruction to fire again, stays there while the flag is up, and goes on in the first
update that finds it down.  On a stage, every such visit is counted once and puts one
bullet into the queue, with the flight and the appearance of that moment and without a
script, in the tick in which it is made; and the script goes on in the next tick, if its
bullet is still on the field.
-/
theorem splits_accounted :
    (∀ {α : Type} [Scalar α] (p : Program Bullet.Kind α), Bullet.Handshake p) ∧
    ∀ (setting : Setting Float32) (seed : UInt64) (enemy : String) (entered : Stage),
      ofEnemy? setting seed enemy = some entered →
      (∀ s, entered.Reaches s → ∃ splits, entered.ReachesWith splits s) ∧
      (∀ splits s, entered.ReachesWith splits s → s.summary.refired = splits.length) ∧
      (∀ limit summary seen, entered.run limit = .ok (summary, seen) →
        ∃ splits s, entered.ReachesWith splits s ∧ summary.refired = splits.length) ∧
      ∀ s s', entered.Reaches s → s.step = .ok s' →
        (∃ splits, s.TickSplits splits) ∧ ∀ splits, s.TickSplits splits → s.Accounted s' splits := by
  refine ⟨fun p => handshake p, fun setting seed enemy entered henters => ⟨?_, ?_, ?_, ?_⟩⟩
  · exact fun s reaches => reaches.exists_splits
  · exact fun splits s h => h.refired henters
  · intro limit summary seen hrun
    obtain ⟨s, reaches, rfl⟩ := reaches_of_run hrun
    obtain ⟨splits, h⟩ := reaches.exists_splits
    exact ⟨splits, s, h, h.refired henters⟩
  · intro s s' reaches hstep
    refine ⟨exists_tickSplits hstep, fun splits hsplits => ?_⟩
    exact tickSplits_accounted (reaches.underway henters) hstep hsplits

/-- An enemy whose shot fires a bullet that splits at once. -/
def splitter : Catalog Float32 where
  bullets := [.ofInstructions "twin" "Splits once" [Bullet.Command.refire]]
  shots := [.ofInstructions "single" "One bullet that splits"
    [Shot.Command.attachMotion "twin", Shot.Command.fire 2.0]]
  enemies := [.ofInstructions "guard" "Fires and waits" [Enemy.Command.fire "single" 0, .wait 30]]

def splitterSetting : Setting Float32 where
  library := splitter.install
  sprite? _ _ := some ⟨"orb", 4.0⟩
  path? _ := none
  player := none

theorem splits_accounted_splitter : ∃ entered s' splits,
    ofEnemy? splitterSetting 7 "guard" = some entered ∧ entered.step = .ok s' ∧
      s'.summary.refired = 1 ∧ entered.TickSplits splits ∧ splits.length = 1 ∧
      s'.world.store.queued.toList.map (·.2) = splits.map Split.launch := by
  obtain ⟨entered, s', henters, hstep, hbefore, hafter⟩ : ∃ entered s',
      ofEnemy? splitterSetting 7 "guard" = some entered ∧ entered.step = .ok s' ∧
        entered.summary.refired = 0 ∧ s'.summary.refired = 1 := by
    refine ⟨_, _, rfl, rfl, ?_, ?_⟩ <;> rfl
  obtain ⟨-, -, -, ticks⟩ := splits_accounted.2 splitterSetting 7 "guard" entered henters
  obtain ⟨⟨splits, hsplits⟩, accounted⟩ := ticks entered s' .start hstep
  have counted := (accounted splits hsplits).counted
  rw [hbefore, hafter, Nat.zero_add] at counted
  exact ⟨entered, s', splits, henters, hstep, hafter, hsplits, counted.symm,
    (accounted splits hsplits).queued⟩

end Barrage.Stage
