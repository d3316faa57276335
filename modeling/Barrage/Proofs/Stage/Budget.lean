/-
What more time does to a run.

The limit only says when to stop.  Nothing in a tick looks at it, so a run with a higher
limit goes through the same stages as one with a lower limit, and then goes on, or has
stopped where that one has because nothing was left.  What is different at the end is
what the ticks in between have done; and a tick can add to the totals, but takes nothing
back.
-/
import Barrage.Proofs.Stage.Fate

namespace Barrage.Stage

variable {setting : Setting Float32} {seed : UInt64} {enemy : String} {entered s s' : Stage}
  {running : Bool} {script : Cursor Enemy.Kind Float32} {body : Enemy.Body Float32} {w : World}

/-! ### Sounds

The number of sounds is the one total that is kept by the world and not by the stage.
It has to be followed through the scripts, where only one operation of the host touches
it; the other phases of a tick hand the world on without making any sound.
-/

/-- Whatever scripts do, no sound that was played is forgotten. -/
theorem World.sounds_keeps (setting : Setting Float32) (n : Nat) :
    (World.host setting).Keeps (fun _ => True) fun w => n ≤ w.sounds :=
  { World.host_keepsAside setting (H := fun w => n ≤ w.sounds)
      (fun _ h => Nat.le_succ_of_le h) fun _ _ h => h with
    spawnBullet := fun _ _ _ h => h
    setPosition := fun _ _ _ h => h
    setRotation := fun _ _ _ h => h
    setVelocity := fun _ _ _ h => h
    destroy := fun _ _ h => h }

theorem EnemyRuns.sounds_le (underway : s.Has .underway)
    (ran : s.EnemyRuns running script body w) : s.world.sounds ≤ w.sounds := by
  obtain ⟨before, -, hu⟩ := ran
  obtain ⟨p, reachable⟩ := underway.script
  exact (Enemy.update_keeps (A := fun _ => True) (World.sounds_keeps s.setting _)
    (fun _ _ _ _ _ _ => trivial) reachable (fun _ _ => trivial) le_rfl hu).2

theorem follow_sounds (body : Enemy.Body Float32) (w : World) :
    (s.follow body w).sounds = w.sounds := by
  unfold follow
  split <;> rfl

theorem EnemyMoves.sounds_le (underway : s.Has .underway)
    (moved : s.EnemyMoves running script body w) : s.world.sounds ≤ w.sounds := by
  obtain ⟨acted, w₁, ran, -, hshots⟩ := moved
  obtain ⟨-, hacted, -⟩ := ran.has (underway_kept s.setting) underway
  obtain ⟨shots, hadvance, rfl, -⟩ := Enemy.tickShots_cases hshots
  have louder : s.world.sounds ≤ (s.follow acted.integrate w₁).sounds := by
    rw [follow_sounds]
    exact ran.sounds_le underway
  exact (Enemy.advanceShots_keeps (shots_keep (World.sounds_keeps s.setting _).toKeepsAsking
    (fun _ _ _ => trivial) _) hacted louder hadvance).2

theorem removeEnemy_sounds (body : Enemy.Body Float32) (fate : Fate) :
    (s.removeEnemy body fate).world.sounds = s.world.sounds := by
  unfold removeEnemy
  dsimp only
  split <;> rfl

theorem cull_sounds (s : Stage) : s.cull.world.sounds = s.world.sounds := by
  rw [cull_world]
  refine List.foldlRecOn (motive := fun w : World => w.sounds = s.world.sounds) _ _ rfl ?_
  intro w hw b _
  unfold LiveBullet.leave
  split <;> exact hw

/-! ### Totals

Each phase of a tick makes the totals grow or leaves them alone, and growth is
transitive.  That scripts are under way is needed for the sounds only.
-/

/-- The totals of one stage are at least those of another. -/
structure Grows (s s' : Stage) : Prop where
  fired : s.summary.fired ≤ s'.summary.fired
  refired : s.summary.refired ≤ s'.summary.refired
  peak : s.summary.peak ≤ s'.summary.peak
  culled : s.summary.culled ≤ s'.summary.culled
  drops : s.summary.drops ≤ s'.summary.drops
  sounds : s.world.sounds ≤ s'.world.sounds

theorem Grows.refl (s : Stage) : s.Grows s :=
  ⟨le_rfl, le_rfl, le_rfl, le_rfl, le_rfl, le_rfl⟩

theorem Grows.trans {t : Stage} (h : s.Grows t) (h' : t.Grows s') : s.Grows s' :=
  ⟨h.fired.trans h'.fired, h.refired.trans h'.refired, h.peak.trans h'.peak,
    h.culled.trans h'.culled, h.drops.trans h'.drops, h.sounds.trans h'.sounds⟩

theorem grows_of_stepEnemy (underway : s.Has .underway) (hstep : s.stepEnemy = .ok s') :
    s.Grows s' := by
  cases enemyTick_of_stepEnemy hstep with
  | absent _ => exact .refl s
  | @died _ _ _ w ran _ =>
      refine ⟨le_rfl, le_rfl, le_rfl, le_rfl, Nat.le_add_right _ _, ?_⟩
      rw [removeEnemy_sounds]
      show s.world.sounds ≤ w.sounds
      exact ran.sounds_le underway
  | left moved _ | finished moved _ _ =>
      refine ⟨le_rfl, le_rfl, le_rfl, le_rfl, le_rfl, ?_⟩
      rw [removeEnemy_sounds]
      exact moved.sounds_le underway
  | goesOn moved _ _ =>
      exact ⟨le_rfl, le_rfl, le_rfl, le_rfl, le_rfl, moved.sounds_le underway⟩

theorem grows_collect (s : Stage) : s.Grows s.collect :=
  ⟨Nat.le_add_right _ _, le_rfl, le_rfl, le_rfl, le_rfl, le_rfl⟩

theorem askAll_sounds (launches : List (Bullet.Launch Float32)) (w : World) :
    (launches.foldl World.ask w).sounds = w.sounds :=
  List.foldlRecOn (motive := fun v : World => v.sounds = w.sounds) _ _ rfl fun _ hv _ _ => hv

theorem grows_cull (s : Stage) : s.Grows s.cull :=
  ⟨le_rfl, le_rfl, le_rfl, Nat.le_add_right _ _, le_rfl, (cull_sounds s).ge⟩

theorem grows_launchSplits (s : Stage) (splits : List (Bullet.Launch Float32)) :
    s.Grows (s.launchSplits splits) := by
  rw [launchSplits_eq]
  exact ⟨le_rfl, Nat.le_add_right _ _, le_rfl, le_rfl, le_rfl, (askAll_sounds _ _).ge⟩

theorem grows_of_stepBullets (underway : s.Has .underway) (hstep : s.stepBullets = .ok s') :
    s.Grows s' := by
  obtain ⟨bullets, splits, w, hall, rfl⟩ := stepBullets_cases hstep
  obtain ⟨-, -, louder⟩ := stepAll_keeps (bullets_keep (World.sounds_keeps s.setting _))
    underway.bullets le_rfl hall
  have ran : s.Grows { s with bullets, world := w } :=
    ⟨le_rfl, le_rfl, le_rfl, le_rfl, le_rfl, louder⟩
  exact (ran.trans (grows_launchSplits _ _)).trans (grows_cull _)

theorem grows_of_step (underway : s.Has .underway) (hstep : s.step = .ok s') : s.Grows s' := by
  obtain ⟨s₁, s₂, henemy, hbullets, rfl⟩ := step_cases hstep
  have collected := underway.collected (underway_kept s.setting) henemy
  have begun : s.Grows s.begun := ⟨le_rfl, le_rfl, le_rfl, le_rfl, le_rfl, le_rfl⟩
  have enemy := begun.trans (grows_of_stepEnemy underway.begun henemy)
  have done := (enemy.trans (grows_collect s₁)).trans (grows_of_stepBullets collected hbullets)
  exact { done with peak := done.peak.trans (Nat.le_max_left _ _) }

theorem Reaches.grows (henters : ofEnemy? setting seed enemy = some entered)
    (reaches : entered.Reaches s) (later : s.Reaches s') : s.Grows s' := by
  induction later with
  | start => exact .refl s
  | tick before hstep ih =>
      exact ih.trans (grows_of_step ((reaches.trans before).underway henters) hstep)

/-! ### Ticks of a run

A run is a recursion on the ticks that are left.  What is compared here are two such
recursions from the same stage, one with more ticks to go, and as long as both go on
they do the same.
-/

theorem step_tick (hstep : s.step = .ok s') : s'.tick = s.tick + 1 := by
  obtain ⟨s₁, henemy, -, -, htick, -⟩ := step_enemy hstep
  rw [htick]
  cases enemyTick_of_stepEnemy henemy <;> rfl

/-- Nothing is left: no enemy, no bullet, and none in the queue. -/
def Cleared (s : Stage) : Prop :=
  s.enemy = none ∧ s.bullets = [] ∧ s.world.store.queued = #[]

theorem isBusy_eq_false_iff : s.isBusy = false ↔ s.Cleared := by
  simp [isBusy, Cleared, and_assoc]

/-- From `s` to `s'` it has taken so many ticks at most, and a snapshot was added after each; if
there were fewer, then nothing is left. -/
structure Stretch (limit : Nat) (s : Stage) (seen : List Snapshot) (s' : Stage)
    (seen' : List Snapshot) : Prop where
  seen : ∃ later, seen' = later ++ seen ∧ s'.tick = s.tick + later.length
  inTime : s'.tick ≤ s.tick + limit
  early : s'.tick < s.tick + limit → s'.Cleared

variable {limit more : Nat} {seen seen' : List Snapshot}

theorem stretch_of_runTicks (hticks : runTicks limit seen s = .ok (s', seen')) :
    Stretch limit s seen s' seen' := by
  induction limit generalizing s seen with
  | zero =>
      cases hticks
      exact ⟨⟨[], rfl, rfl⟩, le_rfl, fun h => absurd h (lt_irrefl _)⟩
  | succ limit ih =>
      obtain ⟨t, hstep, hticks⟩ := bind_eq_ok.mp hticks
      have htick := step_tick hstep
      dsimp only at hticks
      split at hticks
      · obtain ⟨⟨later, rfl, hlater⟩, inTime, early⟩ := ih hticks
        refine ⟨⟨later ++ [t.snapshot], by simp, ?_⟩, by omega, fun h => early (by omega)⟩
        rw [List.length_append, List.length_singleton]
        omega
      · rename_i idle
        cases hticks
        have cleared := isBusy_eq_false_iff.mp (Bool.eq_false_of_not_eq_true idle)
        exact ⟨⟨[s'.snapshot], rfl, htick⟩, by omega, fun _ => cleared⟩

/-- The snapshots that are added go by the ticks, of which the first is the one after `s`. -/
theorem numbered_of_runTicks (hticks : runTicks limit seen s = .ok (s', seen')) : ∃ later,
    seen' = later ++ seen ∧
      later.reverse.map Snapshot.tick = List.range' (s.tick + 1) later.length := by
  induction limit generalizing s seen with
  | zero =>
      cases hticks
      exact ⟨[], rfl, rfl⟩
  | succ limit ih =>
      obtain ⟨t, hstep, hticks⟩ := bind_eq_ok.mp hticks
      have first : t.snapshot.tick = s.tick + 1 := step_tick hstep
      dsimp only at hticks
      split at hticks
      · obtain ⟨later, rfl, hlater⟩ := ih hticks
        rw [step_tick hstep] at hlater
        refine ⟨later ++ [t.snapshot], by simp, ?_⟩
        rw [List.reverse_append, List.reverse_singleton, List.singleton_append, List.map_cons,
          first, hlater, List.length_append, List.length_singleton, List.range'_succ]
      · cases hticks
        refine ⟨[s'.snapshot], rfl, ?_⟩
        rw [List.reverse_singleton, List.map_singleton, first, List.length_singleton,
          List.range'_one]

/-- Ticks that come to an end have done first what they do with a lower limit, and have gone on
from there if something was left. -/
theorem runTicks_shorter (busy : s.isBusy = true)
    (hticks : runTicks (limit + more) seen s = .ok (s', seen')) :
    ∃ t mid, runTicks limit seen s = .ok (t, mid) ∧
      (¬ t.Cleared ∧ runTicks more mid t = .ok (s', seen') ∨
        t.Cleared ∧ s' = t ∧ seen' = mid) := by
  induction limit generalizing s seen with
  | zero =>
      rw [Nat.zero_add] at hticks
      refine ⟨s, seen, rfl, .inl ⟨?_, hticks⟩⟩
      rw [← isBusy_eq_false_iff, busy]
      decide
  | succ limit ih =>
      rw [Nat.succ_add] at hticks
      obtain ⟨u, hstep, hticks⟩ := bind_eq_ok.mp hticks
      dsimp only at hticks
      split at hticks
      · rename_i left
        obtain ⟨t, mid, hshort, rest⟩ := ih left hticks
        exact ⟨t, mid, bind_eq_ok.mpr ⟨u, hstep, (if_pos left).trans hshort⟩, rest⟩
      · rename_i idle
        cases hticks
        have cleared := isBusy_eq_false_iff.mp (Bool.eq_false_of_not_eq_true idle)
        exact ⟨s', _, bind_eq_ok.mpr ⟨s', hstep, if_neg idle⟩, .inr ⟨cleared, rfl, rfl⟩⟩

/-! ### Runs

A run ends because its ticks are used up or because nothing is left.  In the first case
a longer run goes on from the same stage and adds to it, in the second it ends there
too.
-/

/-- The trace of a run has one line for each of its ticks, and these are not more than allowed. -/
structure InTime (limit : Nat) (summary : Summary) (seen : List Snapshot) : Prop where
  lines : (seen.map Snapshot.line).length = summary.ticks
  ticks : summary.ticks ≤ limit

/-- What a run that ends at `s` comes to if it is given more time. -/
structure Prolongs (s : Stage) (seen : List Snapshot) (summary' : Summary)
    (seen' : List Snapshot) : Prop where
  trace : seen.map Snapshot.line <+: seen'.map Snapshot.line
  ticks : s.totals.ticks ≤ summary'.ticks
  fired : s.totals.fired ≤ summary'.fired
  refired : s.totals.refired ≤ summary'.refired
  peak : s.totals.peak ≤ summary'.peak
  culled : s.totals.culled ≤ summary'.culled
  sounds : s.totals.sounds ≤ summary'.sounds
  drops : s.totals.drops ≤ summary'.drops
  fate : s.totals.fate ≠ .alive → summary'.fate = s.totals.fate
  /-- It has ended for good if nothing is left. -/
  ended : s.Cleared → summary' = s.totals ∧ seen' = seen

theorem enters_busy (henters : ofEnemy? setting seed enemy = some entered) :
    entered.isBusy = true ∧ entered.tick = 0 := by
  obtain ⟨script, -, henters⟩ := Option.bind_eq_some_iff.mp henters
  cases henters
  exact ⟨rfl, rfl⟩

theorem inTime_of_runTicks (hstart : entered.tick = 0)
    (hticks : runTicks limit [] entered = .ok (s, seen)) : InTime limit s.totals seen.reverse := by
  obtain ⟨⟨later, rfl, hlater⟩, inTime, -⟩ := stretch_of_runTicks hticks
  rw [hstart, Nat.zero_add] at hlater inTime
  exact ⟨by simpa [totals] using hlater.symm, inTime⟩

theorem numbered_of_run {summary : Summary} (henters : ofEnemy? setting seed enemy = some entered)
    (hrun : entered.run limit = .ok (summary, seen)) :
    seen.map Snapshot.tick = List.range' 1 summary.ticks := by
  obtain ⟨-, hstart⟩ := enters_busy henters
  obtain ⟨⟨s, seen₁⟩, hticks, hrun⟩ := bind_eq_ok.mp hrun
  cases hrun
  have lines := (inTime_of_runTicks hstart hticks).lines
  obtain ⟨later, rfl, numbered⟩ := numbered_of_runTicks hticks
  rw [hstart, Nat.zero_add] at numbered
  rw [← lines, List.append_nil, numbered, List.length_map, List.length_reverse]

theorem prolongs_of_runTicks (henters : ofEnemy? setting seed enemy = some entered)
    (reaches : entered.Reaches s) (left : ¬ s.Cleared)
    (hticks : runTicks more seen s = .ok (s', seen')) :
    s.Prolongs seen.reverse s'.totals seen'.reverse := by
  obtain ⟨⟨later, rfl, hlater⟩, -, -⟩ := stretch_of_runTicks hticks
  have after : s.Reaches s' := reaches_of_runTicks .start hticks
  have grows := reaches.grows henters after
  refine ⟨?_, ?_, grows.fired, grows.refired, grows.peak, grows.culled, grows.sounds, grows.drops,
    fun decided => (reaches.final henters decided after).1, fun cleared => absurd cleared left⟩
  · rw [List.reverse_append, List.map_append]
    exact List.prefix_append _ _
  · show s.tick ≤ s'.tick
    omega

theorem prolongs_refl (s : Stage) (seen : List Snapshot) : s.Prolongs seen s.totals seen where
  trace := List.prefix_rfl
  ticks := le_rfl
  fired := le_rfl
  refired := le_rfl
  peak := le_rfl
  culled := le_rfl
  sounds := le_rfl
  drops := le_rfl
  fate _ := rfl
  ended _ := ⟨rfl, rfl⟩

/--
**A higher limit only makes a run longer.**  If a run comes to an end, so does one with a
lower limit, and what can be seen of that is how the longer run begins.  The totals of
the longer run are not smaller, a fate that was decided is the same in both, and if
nothing was left on the field then the runs are the same.  A run stops before its limit
only if nothing is left, and its trace has a line for every tick.
-/
theorem run_prolonged (setting : Setting Float32) (seed : UInt64) (enemy : String)
    (entered : Stage) (henters : ofEnemy? setting seed enemy = some entered) (limit limit' : Nat)
    (hle : limit ≤ limit') (summary' : Summary) (seen' : List Snapshot)
    (hrun' : entered.run limit' = .ok (summary', seen')) :
    ∃ s seen, runTicks limit [] entered = .ok (s, seen.reverse) ∧
      entered.run limit = .ok (s.totals, seen) ∧ s.Prolongs seen summary' seen' ∧
      (s.tick < limit → s.Cleared) ∧ InTime limit s.totals seen ∧
      InTime limit' summary' seen' := by
  obtain ⟨busy, hstart⟩ := enters_busy henters
  obtain ⟨more, rfl⟩ := Nat.exists_eq_add_of_le hle
  obtain ⟨⟨s', seen₁'⟩, hticks', hrun'⟩ := bind_eq_ok.mp hrun'
  cases hrun'
  obtain ⟨s, seen₁, hticks, rest⟩ := runTicks_shorter busy hticks'
  have reaches : entered.Reaches s := reaches_of_runTicks .start hticks
  have early := (stretch_of_runTicks hticks).early
  rw [hstart, Nat.zero_add] at early
  refine ⟨s, seen₁.reverse, by rw [List.reverse_reverse, hticks], ?_, ?_, early,
    inTime_of_runTicks hstart hticks, inTime_of_runTicks hstart hticks'⟩
  · exact bind_eq_ok.mpr ⟨_, hticks, rfl⟩
  · rcases rest with ⟨left, hmore⟩ | ⟨-, rfl, rfl⟩
    · exact prolongs_of_runTicks henters reaches left hmore
    · exact prolongs_refl _ _

/-- An enemy that sounds a horn, waits, and dies. -/
def herald : Catalog Float32 where
  bullets := []
  shots := []
  enemies := [.ofInstructions "herald" "Announces itself"
    [Enemy.Command.playSound "horn" 1.0, .wait 1, Enemy.Command.addDrop 1 2, Enemy.Command.die]]

def heraldSetting : Setting Float32 :=
  { splitterSetting with library := herald.install }

theorem run_prolonged_herald : ∃ (entered s : Stage) (seen seen' : List Snapshot)
    (summary' : Summary),
      ofEnemy? heraldSetting 7 "herald" = some entered ∧
      entered.run 1 = .ok (s.totals, seen) ∧ entered.run 5 = .ok (summary', seen') ∧
      s.Prolongs seen summary' seen' ∧ s.totals.sounds = 1 ∧ s.totals.fate = .alive ∧
      summary'.fate = .died 2 ∧ seen'.length = 2 := by
  obtain ⟨entered, summary, seen, summary', seen', henters, hrun, hrun', hsounds, halive, hdied,
      hticks⟩ : ∃ entered summary seen summary' seen',
      ofEnemy? heraldSetting 7 "herald" = some entered ∧
        entered.run 1 = .ok (summary, seen) ∧ entered.run 5 = .ok (summary', seen') ∧
        summary.sounds = 1 ∧ summary.fate = .alive ∧ summary'.fate = .died 2 ∧
        summary'.ticks = 2 :=
    ⟨_, _, _, _, _, rfl, rfl, rfl, rfl, rfl, rfl, rfl⟩
  obtain ⟨s, seen₁, -, hrun₁, prolongs, -, -, inTime⟩ :=
    run_prolonged heraldSetting 7 "herald" entered henters 1 5 (by decide) summary' seen' hrun'
  cases hrun.symm.trans hrun₁
  refine ⟨entered, s, seen, seen', summary', henters, hrun, hrun', prolongs, hsounds, halive,
    hdied, ?_⟩
  rw [← hticks, ← inTime.lines, List.length_map]

end Barrage.Stage
