/-
Every script on a stage is under way in some program.

Scripts come to a stage from its library, at the start of a program, and only ever
change by updates.  For a bullet there is more to say, because it shares a flag with the
stage: the stage clears it in every tick, so between two ticks it is down, and the bullet
and its script are in a `Flight`.
-/
import Barrage.Proofs.Bullet.Refire
import Barrage.Proofs.Catalog.Closed
import Barrage.Proofs.Stage.Parts

namespace Barrage

/-- A script that comes from a registry is at the start of its program. -/
theorem Registry.underway_of_cursor? {κ α : Type} [Vocabulary κ] [Scalar α] {r : Registry κ α}
    {name : String} {c : Cursor κ α} (h : r.cursor? name = some c) : ∃ p, c.Reachable p := by
  obtain ⟨p, -, rfl⟩ := cursor?_eq_some.mp h
  exact ⟨p, .start⟩

namespace Stage

open Bullet (Flight)

/-! ### Scripts under way

What is true of all scripts at all times is that updates of their programs lead to
them.  In the queue more is known, that they have not begun.  On the field it would not
do, since a bullet and its script have to agree on the flag.
-/

/-- Scripts are somewhere in a run of their programs; those of bullets in the queue are at the
start. -/
def Parts.underway : Parts where
  script c := ∃ p, c.Reachable p
  shot a := ∃ p, a.script.Reachable p
  bullet b := b.motion.refirePending = false ∧ ∀ c ∈ b.script, ∃ p, Flight p c b.motion
  launch l := ∀ c ∈ l.script, ∃ p, c = .ofProgram p

variable {setting : Setting Float32} {s s' : Stage} {w : World}

theorem startsScript_of_launched {motion : Option String} {launch : Bullet.Launch Float32}
    (launched : Shot.Launched setting motion launch) : Parts.underway.launch launch := by
  intro c hc
  rw [launched.carries] at hc
  obtain ⟨name, -, hname⟩ := Option.bind_eq_some_iff.mp hc
  obtain ⟨p, -, rfl⟩ := Registry.cursor?_eq_some.mp hname
  exact ⟨p, rfl⟩

theorem enemy_underway (setting : Setting Float32) {script script' : Cursor Enemy.Kind Float32}
    {body body' : Enemy.Body Float32} {w w' : World} {running : Bool}
    (hscript : ∃ p, script.Reachable p)
    (hshots : ∀ shot ∈ body.shots, ∃ p, shot.script.Reachable p)
    {L : Bullet.Launch Float32 → Prop} (hw : w.Queues L)
    (hu : Enemy.update (World.host setting) script body w = .ok (running, script', body', w')) :
    (∃ p, script'.Reachable p) ∧ (∀ shot ∈ body'.shots, ∃ p, shot.script.Reachable p) ∧
      w'.Queues L := by
  obtain ⟨p, reachable⟩ := hscript
  obtain ⟨w₁, hran, -⟩ := Enemy.update_cases hu
  refine ⟨⟨p, reachable.update hran⟩, ?_⟩
  refine Enemy.update_keeps (A := fun shot => ∃ p, shot.script.Reachable p)
    (World.queues_keeps setting _) ?_ reachable hshots hw hu
  exact fun _ _ _ _ _ => Registry.underway_of_cursor?

/-- A tick of a shot keeps its script under way, and keeps of the world what the operations of
shots keep. -/
theorem shots_keep {L : Bullet.Launch Float32 → Prop} {H : World → Prop}
    (keeps : (World.host setting).KeepsAsking L H)
    (launches : ∀ motion launch, Shot.Launched setting motion launch → L launch)
    (origin : Int32 → Vec2 Float32) :
    Enemy.ShotsKeep (World.host setting) origin (fun shot => ∃ p, shot.script.Reachable p) H := by
  intro shot w running script emitter w' hshot hw hupdate
  obtain ⟨p, reachable⟩ := hshot
  have carried : (World.host setting).KeepsAsking
      (fun launch => ∃ motion, True ∧ Shot.Launched setting motion launch) H :=
    keeps.launching fun launch ⟨motion, _, launched⟩ => launches motion launch launched
  have preserves := Shot.interpreter_preserves (p := p) (M := fun _ => True) carried
    (fun _ _ _ => trivial) trivial
  exact ⟨⟨p, reachable.update hupdate⟩, (preserves.update reachable ⟨trivial, hw⟩ hupdate).2⟩

/-- The script of a bullet keeps it in flight. -/
theorem LiveBullet.Ran.flight {host : Host Float32 World} {b b' : LiveBullet} {w' : World}
    (ran : b.Ran host w b' w') (hb : ∀ c ∈ b.script, ∃ p, Flight p c b.motion) :
    ∀ c ∈ b'.script, ∃ p, Flight p c b'.motion := by
  cases ran with
  | straight _ => exact hb
  | @updated c c' m _ running hscript hu =>
      obtain ⟨p, flight⟩ := hb c hscript
      intro d hd
      cases running with
      | false => simp at hd
      | true =>
          obtain rfl : c' = d := by simpa using hd
          exact ⟨p, flight.update hu⟩

theorem LiveBullet.Ran.keeps {b b' : LiveBullet} {w' : World} {L : Bullet.Launch Float32 → Prop}
    {H : World → Prop} (keeps : (World.host setting).Keeps L H)
    (ran : b.Ran (World.host setting) w b' w') (hb : ∀ c ∈ b.script, ∃ p, Flight p c b.motion)
    (hw : H w) : b'.motion.handle = b.motion.handle ∧ H w' := by
  cases ran with
  | straight _ => exact ⟨rfl, hw⟩
  | updated hscript hu =>
      obtain ⟨p, flight⟩ := hb _ hscript
      exact Bullet.update_keeps keeps flight.awaits.reachable hw hu

/-- A tick of a bullet keeps it in flight, keeps of the world what all operations of the host keep,
and asks for bullets without a script only. -/
theorem bullets_keep {L : Bullet.Launch Float32 → Prop} {H : World → Prop}
    (keeps : (World.host setting).Keeps L H) :
    BulletsKeep (World.host setting) Parts.underway.bullet (fun launch => launch.script = none) H := by
  intro b w b' asked w' hb hw hstep
  obtain ⟨b₁, w₁, ran, rfl, rfl, rfl⟩ := LiveBullet.step_cases hstep
  refine ⟨⟨rfl, ?_⟩, ?_, ?_⟩
  · intro c hc
    rw [LiveBullet.flown_script] at hc
    obtain ⟨p, flight⟩ := ran.flight hb.2 c hc
    refine ⟨p, flight.owner fun raised => ?_⟩
    rw [LiveBullet.flown_refirePending] at raised
    cases raised
  · intro launch hlaunch
    split at hlaunch
    · rw [← Option.some.inj hlaunch]
      rfl
    · simp at hlaunch
  · have hw₁ := (ran.keeps keeps hb.2 hw).2
    unfold LiveBullet.follow
    split
    · exact keeps.setPosition _ _ _ hw₁
    · exact hw₁

theorem underway_kept (setting : Setting Float32) : Parts.underway.Kept setting where
  enemy _ _ _ _ _ _ _ hscript hshots hw hu := enemy_underway setting hscript hshots hw hu
  shots := shots_keep (World.queues_keeps setting _).toKeepsAsking
    fun _ _ launched => startsScript_of_launched launched
  bullets := by
    intro b w b' asked w' hb hw hstep
    obtain ⟨hb', hasked, hw'⟩ :=
      bullets_keep (World.queues_keeps setting _) b w b' asked w' hb hw hstep
    refine ⟨hb', fun launch hlaunch c hc => ?_, hw'⟩
    rw [hasked launch hlaunch] at hc
    cases hc
  takesOff := by
    intro handle launch hlaunch
    refine ⟨rfl, fun c hc => ?_⟩
    obtain ⟨p, rfl⟩ := hlaunch c hc
    exact ⟨p, .start rfl⟩

theorem underway_of_ofEnemy? {seed : UInt64} {name : String}
    (h : ofEnemy? setting seed name = some s) : s.Has .underway :=
  (has_of_ofEnemy? h fun _ => Registry.underway_of_cursor?).1

/-- On every stage that ticks lead to, all scripts are under way. -/
theorem Reaches.underway {seed : UInt64} {name : String} (h : ofEnemy? setting seed name = some s)
    (reaches : s.Reaches s') : s'.Has .underway :=
  (reaches.has (underway_kept s.setting) (underway_of_ofEnemy? h)).1

end Stage

end Barrage
