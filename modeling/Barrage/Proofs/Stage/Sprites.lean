/-
The sprite of every bullet is the one of its template and color.

A bullet on the field keeps the template and color that its sprite was last looked up
for, and looks it up again only when these have changed.  What makes that enough is
that the sprite suits this pair and not the one of the motion: an update may change the
motion as often as it likes, and the pair that was looked up stays what it is until the
update is over.  A pair without a sprite is remembered like any other, and the sprite
of the last pair that had one is kept, by the bullet and by what it splits into.
-/
import Barrage.Proofs.Stage.Splits

namespace Barrage

/-- The sprite is that of the template in the color, if there is one. -/
def Setting.Suits {α : Type} [Scalar α] (setting : Setting α) (sprite : Sprite α)
    (template color : Int32) : Prop :=
  ∀ found, setting.sprite? template color = some found → sprite = found

namespace Stage

variable {setting : Setting Float32} {host : Host Float32 World} {s s' s₁ : Stage}
  {b b' : LiveBullet} {w w' : World} {asked : Option (Bullet.Launch Float32)}
  {bullets bullets' : List LiveBullet} {launches : List (Bullet.Launch Float32)}

/-! ### One bullet

An update hands the bullet on with its looks as they were, however much it has changed
the motion.  The sprite is looked up once, after the update and before the bullet can
split.
-/

namespace LiveBullet

/-- Between two ticks, the sprite has been looked up for the present appearance and suits it. -/
structure Dressed (setting : Setting Float32) (b : LiveBullet) : Prop where
  appearance : b.appearance = (b.motion.template, b.motion.color)
  sprite : setting.Suits b.sprite b.motion.template b.motion.color

/-- What a tick makes of the looks of a bullet, and of the bullet that it asks for. -/
structure Redressed (setting : Setting Float32) (b b' : LiveBullet)
    (asked : Option (Bullet.Launch Float32)) : Prop where
  dressed : b'.Dressed setting
  /-- An appearance without a sprite leaves the sprite as it was. -/
  sprite : b'.sprite = (setting.sprite? b'.motion.template b'.motion.color).getD b.sprite
  /-- A split has the appearance and the sprite of the moment. -/
  split : ∀ launch ∈ asked, (launch.template, launch.color) = b'.appearance ∧
    launch.sprite = b'.sprite

/-- The script does not see the sprite. -/
theorem Ran.looks (ran : b.Ran host w b' w') :
    b'.sprite = b.sprite ∧ b'.appearance = b.appearance := by
  cases ran <;> exact ⟨rfl, rfl⟩

@[simp] theorem refreshSprite_appearance (setting : Setting Float32) (b : LiveBullet) :
    (b.refreshSprite setting).appearance = (b.motion.template, b.motion.color) := by
  unfold refreshSprite
  dsimp only
  split
  · rename_i same
    exact same.symm
  · rfl

/-- Looked up again or not, the sprite is that of the motion, or the old one. -/
theorem refreshSprite_sprite (suits : setting.Suits b.sprite b.appearance.1 b.appearance.2) :
    (b.refreshSprite setting).sprite =
      (setting.sprite? b.motion.template b.motion.color).getD b.sprite := by
  unfold refreshSprite
  dsimp only
  split
  · rename_i same
    rw [← same] at suits
    cases hfound : setting.sprite? b.motion.template b.motion.color with
    | none => rfl
    | some found => exact suits found hfound
  · rfl

theorem suits_getD (sprite : Sprite Float32) (template color : Int32) :
    setting.Suits ((setting.sprite? template color).getD sprite) template color := by
  intro found hfound
  rw [hfound, Option.getD_some]

theorem Dressed.step (dressed : b.Dressed host.toSetting)
    (hstep : b.step host w = .ok (b', asked, w')) : b.Redressed host.toSetting b' asked := by
  obtain ⟨b₁, w₁, ran, rfl, -, rfl⟩ := step_cases hstep
  obtain ⟨hsprite, happearance⟩ := ran.looks
  have suits : host.toSetting.Suits b₁.sprite b₁.appearance.1 b₁.appearance.2 := by
    rw [hsprite, happearance, dressed.appearance]
    exact dressed.sprite
  have sprite : (b₁.flown host.toSetting).sprite =
      (host.sprite? b₁.motion.template b₁.motion.color).getD b.sprite := by
    rw [← hsprite]
    exact refreshSprite_sprite suits
  have appearance : (b₁.flown host.toSetting).appearance =
      (b₁.motion.template, b₁.motion.color) := refreshSprite_appearance _ _
  refine ⟨⟨appearance, ?_⟩, sprite, ?_⟩
  · rw [sprite]
    exact suits_getD b.sprite _ _
  · intro launch hlaunch
    split at hlaunch
    · rw [← Option.some.inj hlaunch]
      simp [LiveBullet.split, flown]
    · simp at hlaunch

end LiveBullet

/-! ### All bullets

A bullet in the queue is dressed for its own template and color, and when it takes off
these are taken down as the pair that was looked up.  This is the only way to the field.
-/

/-- All sprites suit, on the field and in the queue. -/
structure Dressed (s : Stage) : Prop where
  bullets : ∀ b ∈ s.bullets, b.Dressed s.setting
  queued : ∀ launch ∈ s.world.waiting, s.setting.Suits launch.sprite launch.template launch.color

/-- Scripts are under way, and all sprites suit. -/
def Parts.dressed (setting : Setting Float32) : Parts where
  script := Parts.underway.script
  shot := Parts.underway.shot
  bullet b := Parts.underway.bullet b ∧ b.Dressed setting
  launch l := Parts.underway.launch l ∧ setting.Suits l.sprite l.template l.color

theorem dressed_kept (setting : Setting Float32) : (Parts.dressed setting).Kept setting where
  enemy _ _ _ _ _ _ _ hscript hshots hw hu := enemy_underway setting hscript hshots hw hu
  shots := by
    refine shots_keep (World.queues_keeps setting _).toKeepsAsking fun motion launch launched => ?_
    refine ⟨startsScript_of_launched launched, fun found hfound => ?_⟩
    exact Option.some.inj (launched.wears.symm.trans hfound)
  bullets := by
    intro b w b' asked w' ⟨hb, dressed⟩ hw hstep
    obtain ⟨hb', hasked, hw'⟩ :=
      bullets_keep (World.queues_keeps setting _) b w b' asked w' hb hw hstep
    have worn : b.Dressed (World.host setting).toSetting := dressed
    have redressed : b.Redressed setting b' asked := worn.step hstep
    refine ⟨⟨hb', redressed.dressed⟩, fun launch hlaunch => ⟨?_, ?_⟩, hw'⟩
    · intro c hc
      rw [hasked launch hlaunch] at hc
      cases hc
    · obtain ⟨happearance, hsprite⟩ := redressed.split launch hlaunch
      rw [redressed.dressed.appearance] at happearance
      obtain ⟨htemplate, hcolor⟩ := Prod.mk.inj happearance
      rw [hsprite, htemplate, hcolor]
      exact redressed.dressed.sprite
  takesOff := fun handle launch ⟨hlaunch, suits⟩ =>
    ⟨(underway_kept setting).takesOff handle launch hlaunch, rfl, suits⟩

theorem Has.wellDressed (h : s.Has (.dressed s.setting)) : s.Dressed := by
  refine ⟨fun b hb => (h.bullets b hb).2, fun launch hlaunch => ?_⟩
  obtain ⟨asked, hasked, rfl⟩ := List.mem_map.mp hlaunch
  exact (h.queued asked (Array.mem_toList_iff.mp hasked)).2

theorem Reaches.dressed {seed : UInt64} {name : String}
    (h : ofEnemy? setting seed name = some s) (reaches : s.Reaches s') :
    s'.Has (.dressed setting) ∧ s'.setting = setting := by
  obtain ⟨has, rfl⟩ := has_of_ofEnemy? (P := .dressed setting) h
    fun _ => Registry.underway_of_cursor?
  exact reaches.has (dressed_kept s.setting) has

/-! ### What a tick leaves and asks for

A change of sprite is one from a bullet to what a tick makes of it, so the bullets after
a tick have to be traced to those before.
-/

/-- Every bullet that is left, and every one that is asked for, comes from the turn of a bullet. -/
theorem stepAll_turns (hall : stepAll host bullets w = .ok (bullets', launches, w')) :
    (∀ b' ∈ bullets', ∃ b v asked v',
      BulletTurn host bullets w b v ∧ b.step host v = .ok (b', asked, v')) ∧
    ∀ launch ∈ launches, ∃ b v b' v',
      BulletTurn host bullets w b v ∧ b.step host v = .ok (b', some launch, v') := by
  induction bullets generalizing w bullets' launches with
  | nil =>
      cases hall
      exact ⟨by simp, by simp⟩
  | cons first rest ih =>
      obtain ⟨first', asked, w₁, rest', more, ran, hrest, rfl, rfl⟩ := stepAll_cons hall
      obtain ⟨left, asks⟩ := ih hrest
      constructor
      · intro b' hmem
        rcases List.mem_cons.mp hmem with rfl | hmem
        · exact ⟨first, w, asked, w₁, .now, ran⟩
        · obtain ⟨b, v, asked', v', turn, hb⟩ := left b' hmem
          exact ⟨b, v, asked', v', .later ran turn, hb⟩
      · intro launch hmem
        rcases List.mem_append.mp hmem with hmem | hmem
        · obtain rfl := Option.mem_toList.mp hmem
          exact ⟨first, w, first', w₁, .now, ran⟩
        · obtain ⟨b, v, b', v', turn, hb⟩ := asks launch hmem
          exact ⟨b, v, b', v', .later ran turn, hb⟩

/-- In the next tick it is the turn of `b`, which is left as `b'`. -/
def Steps (s : Stage) (b b' : LiveBullet) (asked : Option (Bullet.Launch Float32)) : Prop :=
  ∃ s₁ w w', s.TurnsNext b s₁ w ∧ b.step s₁.host w = .ok (b', asked, w')

theorem Has.redressed (h : s.Has (.dressed s.setting)) (steps : s.Steps b b' asked) :
    b.Redressed s.setting b' asked := by
  obtain ⟨s₁, w, w', ⟨henemy, turn⟩, hstep⟩ := steps
  have collected := h.collected (dressed_kept s.setting) henemy
  have same : s₁.setting = s.begun.setting := stepEnemy_setting henemy
  change s₁.setting = s.setting at same
  have kept : (Parts.dressed s.setting).Kept s₁.setting := same.symm ▸ dressed_kept s.setting
  have hb := (turn.keeps kept.bullets collected.bullets collected.queued).1.2
  rw [← same] at hb ⊢
  exact hb.step hstep

/-- What a tick leaves on the field and in the queue are bullets that it has run, and their
splits. -/
theorem Has.steps (h : s.Has (.dressed s.setting)) (hstep : s.step = .ok s') :
    (∀ b' ∈ s'.bullets, ∃ b asked, s.Steps b b' asked) ∧
      ∀ launch ∈ s'.world.waiting, ∃ b b', s.Steps b b' (some launch) := by
  obtain ⟨s₁, s₂, henemy, hbullets, rfl⟩ := step_cases hstep
  have collected := h.collected (dressed_kept s.setting) henemy
  obtain ⟨bullets, launches, w, hall, hdone⟩ := stepBullets_cases hbullets
  obtain ⟨left, asks⟩ := stepAll_turns hall
  constructor
  · intro b' hb'
    have hmem : b' ∈ bullets := by
      rw [hdone, launchSplits_eq, cull_bullets] at hb'
      exact (List.mem_filter.mp hb').1
    obtain ⟨b, v, asked, v', turn, hb⟩ := left b' hmem
    exact ⟨b, asked, s₁, v, v', ⟨henemy, turn⟩, hb⟩
  · intro launch hlaunch
    have hmem : launch ∈ launches := by
      rw [← stepBullets_waiting (fun b hb => (collected.bullets b hb).1) hall hbullets]
      exact hlaunch
    obtain ⟨b, v, b', v', turn, hb⟩ := asks launch hmem
    exact ⟨b, b', s₁, v, v', ⟨henemy, turn⟩, hb⟩

/--
**Sprites follow appearance.**  After any number of ticks, the sprite of every bullet on
the field and in the queue is the one of its template and color, if that pair has one,
and a bullet on the field has been looked up for just that pair.  Every bullet that a
tick leaves, and every one that it asks for, comes from a bullet that it has run; where
the new pair of that one has no sprite it keeps the old, and a split carries it on.
-/
theorem sprites_follow (setting : Setting Float32) (seed : UInt64) (enemy : String)
    (entered : Stage) (henters : ofEnemy? setting seed enemy = some entered) (s : Stage)
    (reaches : entered.Reaches s) :
    s.setting = setting ∧ s.Dressed ∧
      (∀ b b' asked, s.Steps b b' asked → b.Redressed setting b' asked) ∧
      ∀ s', s.step = .ok s' →
        (∀ b' ∈ s'.bullets, ∃ b asked, s.Steps b b' asked) ∧
          ∀ launch ∈ s'.world.waiting, ∃ b b', s.Steps b b' (some launch) := by
  obtain ⟨has, same⟩ := reaches.dressed henters
  rw [← same] at has
  exact ⟨same, has.wellDressed, fun b b' asked steps => same ▸ has.redressed steps,
    fun s' hstep => has.steps hstep⟩

/-- An enemy whose bullet takes an appearance that has no sprite, and splits. -/
def disguise : Catalog Float32 where
  bullets := [.ofInstructions "mask" "Splits in disguise"
    [Bullet.Command.setAppearance 9 0, Bullet.Command.refire, Bullet.Command.setAppearance 0 0]]
  shots := [.ofInstructions "single" "One bullet"
    [Shot.Command.attachMotion "mask", Shot.Command.fire 2.0]]
  enemies := [.ofInstructions "guard" "Fires and waits" [Enemy.Command.fire "single" 0, .wait 30]]

def disguiseSetting : Setting Float32 where
  library := disguise.install
  sprite? template _ := if template = 0 then some ⟨"orb", 4.0⟩ else none
  path? _ := none
  player := none

theorem sprites_follow_disguise : ∃ entered s' b b' launch,
    ofEnemy? disguiseSetting 7 "guard" = some entered ∧ entered.step = .ok s' ∧ s'.Dressed ∧
      entered.Steps b b' (some launch) ∧ b.Redressed disguiseSetting b' (some launch) ∧
      b'.appearance = (9, 0) ∧ launch.template = 9 ∧ launch.sprite = ⟨"orb", 4.0⟩ := by
  obtain ⟨entered, s', s₁, b, w, b', launch, w', henters, hstep, henemy, turn, hb, happearance,
      htemplate, hsprite⟩ : ∃ entered s' s₁ b w b' launch w',
      ofEnemy? disguiseSetting 7 "guard" = some entered ∧ entered.step = .ok s' ∧
        entered.begun.stepEnemy = .ok s₁ ∧
        BulletTurn s₁.host s₁.collect.bullets s₁.collect.world b w ∧
        b.step s₁.host w = .ok (b', some launch, w') ∧
        b'.appearance = (9, 0) ∧ launch.template = 9 ∧ launch.sprite = ⟨"orb", 4.0⟩ :=
    ⟨_, _, _, _, _, _, _, _, rfl, rfl, rfl, .now, rfl, rfl, rfl, rfl⟩
  have steps : entered.Steps b b' (some launch) := ⟨s₁, w, w', ⟨henemy, turn⟩, hb⟩
  obtain ⟨-, -, redressed, -⟩ := sprites_follow disguiseSetting 7 "guard" entered henters entered
    .start
  obtain ⟨-, dressed, -⟩ := sprites_follow disguiseSetting 7 "guard" entered henters s'
    (.tick .start hstep)
  exact ⟨entered, s', b, b', launch, henters, hstep, dressed, steps, redressed b b' _ steps,
    happearance, htemplate, hsprite⟩

end Stage

end Barrage
