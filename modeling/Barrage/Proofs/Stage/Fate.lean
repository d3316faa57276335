/-
The fate of the enemy is decided once.

A tick comes out in one of five ways as far as the enemy is concerned, and `Decides` says
of each what its script has done and what is left: an enemy that is gone stays gone with
the fate it has, one that is on stage stays there with its fate open or leaves by one of
three exits.  Everything about whole runs follows from that and from the fate being open
just as long as the enemy is on stage.
-/
import Mathlib.Algebra.Ring.Int.Defs
import Barrage.Proofs.Enemy.Death
import Barrage.Proofs.Stage.Storage

namespace Barrage.Stage

/-- The tick in which the enemy has gone, if it has. -/
def Fate.tick? : Fate → Option Nat
  | .alive => none
  | .died tick | .left tick | .finished tick => some tick

theorem Fate.tick?_eq_none {fate : Fate} : fate.tick? = none ↔ fate = .alive := by
  cases fate <;> simp [tick?]

/-! ### What a tick decides

The five outcomes of a tick are told apart here by what the script has done, and not by
the flag of the body: an enemy dies in a tick if its script comes to the instruction in
it.  That the flag says the same is `EnemyRuns.dies`.
-/

/-- In the tick that begins at `s`, the script of the enemy comes to an instruction to die, and
these are its drops at that moment. -/
def Dies (s : Stage) (drops : List Enemy.Drop) : Prop :=
  ∃ body ∈ s.enemy, ∃ t, Enemy.Dies s.host s.script body s.world t ∧ t.state.1.drops = drops

/-- In the tick from `s` to `s'`, the enemy was left without anything more to do: its script is
over, no shot is running, and it does not move. -/
def Exhausts (s s' : Stage) : Prop :=
  ∃ body w, s.begun.EnemyMoves false s'.script body w ∧ s'.script.finished = true ∧
    body.shots = [] ∧ body.velocity.isZero = true ∧ body.acceleration.isZero = true

/-- What the tick from `s` to `s'` decides about the enemy. -/
inductive Decides (s s' : Stage) : Prop
  | absent (gone : s.enemy = none) (gone' : s'.enemy = none)
      (fate : s'.summary.fate = s.summary.fate) (drops : s'.summary.drops = s.summary.drops)
  | stays (present : s.enemy.isSome) (present' : s'.enemy.isSome) (lives : ∀ drops, ¬ s.Dies drops)
      (fate : s'.summary.fate = s.summary.fate) (drops : s'.summary.drops = s.summary.drops)
  | died (present : s.enemy.isSome) (gone' : s'.enemy = none) (dies : ∃ drops, s.Dies drops)
      (fate : s'.summary.fate = .died s'.tick)
      (drops : ∀ drops, s.Dies drops → s'.summary.drops = s.summary.drops + dropCount drops)
  | left (present : s.enemy.isSome) (gone' : s'.enemy = none) (lives : ∀ drops, ¬ s.Dies drops)
      (fate : s'.summary.fate = .left s'.tick) (drops : s'.summary.drops = s.summary.drops)
  | finished (present : s.enemy.isSome) (gone' : s'.enemy = none) (lives : ∀ drops, ¬ s.Dies drops)
      (fate : s'.summary.fate = .finished s'.tick) (drops : s'.summary.drops = s.summary.drops)
      (exhausts : s.Exhausts s')

variable {setting : Setting Float32} {seed : UInt64} {name : String} {entered s s' u u' : Stage}
  {running : Bool} {script : Cursor Enemy.Kind Float32} {body : Enemy.Body Float32} {w : World}

/-- Drops count for as many items as they say, and for none if that is negative. -/
theorem dropCount_eq_sum (drops : List Enemy.Drop) :
    (dropCount drops : Int) = (drops.map fun d => max d.count.toInt 0).sum := by
  have fold : ∀ (drops : List Enemy.Drop) (n : Nat),
      ((drops.foldl (fun count d => count + d.count.toNatClampNeg) n : Nat) : Int) =
        n + (drops.map fun d => max d.count.toInt 0).sum := by
    intro drops
    induction drops with
    | nil => simp
    | cons d rest ih =>
        intro n
        rw [List.foldl_cons, ih, List.map_cons, List.sum_cons]
        simp only [Int32.toNatClampNeg]
        omega
  exact (fold drops 0).trans (by simp)

/-- The tick of the bullets leaves the enemy alone. -/
theorem step_enemy (hstep : s.step = .ok s') : ∃ s₁, s.begun.stepEnemy = .ok s₁ ∧
    s'.enemy = s₁.enemy ∧ s'.script = s₁.script ∧ s'.tick = s₁.tick ∧
    s'.summary.fate = s₁.summary.fate ∧ s'.summary.drops = s₁.summary.drops := by
  obtain ⟨s₁, s₂, henemy, hbullets, rfl⟩ := step_cases hstep
  obtain ⟨bullets, splits, w, -, rfl⟩ := stepBullets_cases hbullets
  rw [launchSplits_eq]
  exact ⟨s₁, henemy, rfl, rfl, rfl, rfl, rfl⟩

/-- The script of the enemy has died just if it is dead, and with the drops that it has now. -/
theorem EnemyRuns.dies (underway : s.Has .underway) (alive : ∀ body ∈ s.enemy, body.dead = false)
    (ran : s.begun.EnemyRuns running script body w) :
    (body.dead = true ↔ ∃ drops, s.Dies drops) ∧ ∀ drops, s.Dies drops → body.drops = drops := by
  obtain ⟨before, hbefore, hu⟩ := ran
  obtain ⟨p, reachable⟩ := underway.script
  obtain ⟨hdead, hdrops⟩ := Enemy.update_dead_iff reachable (alive before hbefore) hu
  refine ⟨hdead.trans ⟨?_, ?_⟩, ?_⟩
  · rintro ⟨t, dies⟩
    exact ⟨_, before, hbefore, t, dies, rfl⟩
  · rintro ⟨drops, body', hbody', t, dies, -⟩
    obtain rfl := Option.some.inj (hbefore.symm.trans hbody')
    exact ⟨t, dies⟩
  · rintro drops ⟨body', hbody', t, dies, rfl⟩
    obtain rfl := Option.some.inj (hbefore.symm.trans hbody')
    exact hdrops t dies

/-- An enemy that has moved was there, and has not died. -/
theorem EnemyMoves.lives (underway : s.Has .underway) (alive : ∀ body ∈ s.enemy, body.dead = false)
    (moved : s.begun.EnemyMoves running script body w) :
    s.enemy.isSome ∧ ∀ drops, ¬ s.Dies drops := by
  obtain ⟨acted, w₁, ran, lives, -⟩ := moved
  refine ⟨?_, fun drops dies => ?_⟩
  · obtain ⟨before, hbefore, -⟩ := ran
    exact Option.isSome_iff_exists.mpr ⟨before, hbefore⟩
  · rw [(ran.dies underway alive).1.mpr ⟨drops, dies⟩] at lives
    cases lives

/-- A script that says that it has no more is over. -/
theorem EnemyMoves.finished (underway : s.Has .underway)
    (moved : s.begun.EnemyMoves false script body w) : script.finished = true := by
  obtain ⟨acted, w₁, ⟨before, hbefore, hu⟩, -⟩ := moved
  obtain ⟨p, reachable⟩ := underway.script
  obtain ⟨w₂, hscript, -⟩ := Enemy.update_cases hu
  cases reachable.settles hscript with
  | ended finished _ => exact finished

theorem decides_of_step (underway : s.Has .underway) (alive : ∀ body ∈ s.enemy, body.dead = false)
    (hstep : s.step = .ok s') : s.Decides s' := by
  obtain ⟨s₁, henemy, hbody, hscript, htick, hfate, hdrops⟩ := step_enemy hstep
  cases enemyTick_of_stepEnemy henemy with
  | absent gone => exact .absent gone (hbody.trans gone) hfate hdrops
  | died ran dead =>
      obtain ⟨hdead, hdies⟩ := ran.dies underway alive
      have present : s.enemy.isSome := by
        obtain ⟨before, hbefore, -⟩ := ran
        exact Option.isSome_iff_exists.mpr ⟨before, hbefore⟩
      refine .died present hbody (hdead.mp dead) ?_ fun drops dies => ?_
      · rw [hfate, htick]
        rfl
      · rw [hdrops, ← hdies drops dies]
        rfl
  | left moved _ =>
      obtain ⟨present, lives⟩ := moved.lives underway alive
      refine .left present hbody lives ?_ hdrops
      rw [hfate, htick]
      rfl
  | @finished running _ body w moved _ done =>
      obtain ⟨present, lives⟩ := moved.lives underway alive
      refine .finished present hbody lives ?_ hdrops ?_
      · rw [hfate, htick]
        rfl
      · simp only [spent, Bool.and_eq_true, Bool.not_eq_true', List.isEmpty_iff] at done
        obtain ⟨⟨⟨rfl, hshots⟩, hvelocity⟩, hacceleration⟩ := done
        rw [Exhausts, hscript]
        exact ⟨body, w, moved, moved.finished underway, hshots, hvelocity, hacceleration⟩
  | goesOn moved _ _ =>
      obtain ⟨present, lives⟩ := moved.lives underway alive
      exact .stays present (by rw [hbody]; rfl) lives hfate hdrops

/-! ### Runs

A fate is open just as long as the enemy is there, so a tick decides it only if it finds
the enemy on stage and leaves none.  This can happen once.
-/

theorem Reaches.trans (h : s.Reaches s') (h' : s'.Reaches u) : s.Reaches u := by
  induction h' with
  | start => exact h
  | tick _ hstep ih => exact ih.tick hstep

theorem Reaches.decides (henters : ofEnemy? setting seed name = some entered)
    (reaches : entered.Reaches s) (hstep : s.step = .ok s') : s.Decides s' :=
  decides_of_step (reaches.underway henters)
    (fun body hbody => ((reaches.balanced henters).enemy body hbody).1) hstep

/-- The fate is open as long as the enemy is on stage, and until then nothing is dropped. -/
structure FateMatches (s : Stage) : Prop where
  alive : s.summary.fate = .alive ↔ s.enemy.isSome
  drops : s.summary.fate = .alive → s.summary.drops = 0

theorem FateMatches.decides (h : s.FateMatches) (decides : s.Decides s') : s'.FateMatches := by
  cases decides with
  | absent gone gone' fate drops =>
      refine ⟨?_, ?_⟩
      · rw [fate, h.alive, gone, gone']
      · rw [fate, drops]
        exact h.drops
  | stays present present' _ fate drops =>
      refine ⟨?_, ?_⟩
      · rw [fate, h.alive]
        simp [present, present']
      · rw [fate, drops]
        exact h.drops
  | died _ gone' _ fate _ | left _ gone' _ fate _ | finished _ gone' _ fate _ _ =>
      exact ⟨by simp [fate, gone'], by simp [fate]⟩

theorem fateMatches_of_ofEnemy? (henters : ofEnemy? setting seed name = some entered) :
    entered.FateMatches := by
  obtain ⟨script, -, henters⟩ := Option.bind_eq_some_iff.mp henters
  cases henters
  exact ⟨by simp [Summary.initial], fun _ => rfl⟩

theorem Reaches.fateMatches (henters : ofEnemy? setting seed name = some entered)
    (reaches : entered.Reaches s) : s.FateMatches := by
  induction reaches with
  | start => exact fateMatches_of_ofEnemy? henters
  | tick before hstep ih => exact ih.decides (before.decides henters hstep)

/-- What is decided stays decided. -/
theorem Reaches.final (henters : ofEnemy? setting seed name = some entered)
    (reaches : entered.Reaches s) (decided : s.summary.fate ≠ .alive) (later : s.Reaches s') :
    s'.summary.fate = s.summary.fate ∧ s'.summary.drops = s.summary.drops := by
  induction later with
  | start => exact ⟨rfl, rfl⟩
  | @tick t t' before hstep ih =>
      have reaches' := reaches.trans before
      have gone : ¬ t.enemy.isSome := by
        rw [← (reaches'.fateMatches henters).alive, ih.1]
        exact decided
      cases reaches'.decides henters hstep with
      | absent _ _ fate drops => exact ⟨fate.trans ih.1, drops.trans ih.2⟩
      | stays present _ _ _ _ | died present _ _ _ _ | left present _ _ _ _
      | finished present _ _ _ _ _ => exact absurd present gone

/-- Among the ticks that lead from `s` to `s'` is the one from `u` to `u'`. -/
structure Passes (s s' u u' : Stage) : Prop where
  before : s.Reaches u
  tick : u.step = .ok u'
  after : u'.Reaches s'

theorem Passes.extend (passes : entered.Passes s u u') (hstep : s.step = .ok s') :
    entered.Passes s' u u' :=
  ⟨passes.before, passes.tick, passes.after.tick hstep⟩

/-- A fate that is not open was decided in a tick that has passed. -/
theorem Reaches.decided (henters : ofEnemy? setting seed name = some entered)
    (reaches : entered.Reaches s) (decided : s.summary.fate ≠ .alive) :
    ∃ u u', entered.Passes s u u' ∧ u.summary.fate = .alive ∧
      u'.summary.fate = s.summary.fate ∧ u'.summary.drops = s.summary.drops := by
  induction reaches with
  | start =>
      have present : entered.enemy.isSome := by
        obtain ⟨script, -, henters⟩ := Option.bind_eq_some_iff.mp henters
        cases henters
        rfl
      exact absurd ((fateMatches_of_ofEnemy? henters).alive.mpr present) decided
  | @tick t t' before hstep ih =>
      by_cases hopen : t.summary.fate = .alive
      · exact ⟨t, t', ⟨before, hstep, .start⟩, hopen, rfl, rfl⟩
      · obtain ⟨u, u', passes, hu, fate, drops⟩ := ih hopen
        obtain ⟨fate', drops'⟩ := before.final henters hopen (.tick .start hstep)
        exact ⟨u, u', passes.extend hstep, hu, fate.trans fate'.symm, drops.trans drops'.symm⟩

/-- How the fate of the enemy stands at `s`, and which tick has decided it. -/
structure Fated (entered s : Stage) : Prop where
  /-- It is open as long as the enemy is on stage. -/
  alive : s.summary.fate = .alive ↔ s.enemy.isSome
  /-- Once it is not, it never changes again. -/
  final : s.summary.fate ≠ .alive → ∀ s', s.Reaches s' →
    s'.summary.fate = s.summary.fate ∧ s'.summary.drops = s.summary.drops
  /-- It was decided in the tick that it names. -/
  decided : ∀ n, s.summary.fate.tick? = some n → ∃ u u', entered.Passes s u u' ∧
    u'.tick = n ∧ u.summary.fate = .alive ∧ u'.summary.fate = s.summary.fate
  /-- It is death just if the script came to an instruction to die, in the tick in which it did. -/
  died : ∀ n, s.summary.fate = .died n ↔
    ∃ u u' drops, entered.Passes s u u' ∧ u'.tick = n ∧ u.Dies drops
  /-- Then the items are those that it would drop at that moment. -/
  drops : ∀ u u' drops, entered.Passes s u u' → u.Dies drops →
    (s.summary.drops : Int) = (drops.map fun d => max d.count.toInt 0).sum
  /-- Otherwise there are none. -/
  noDrops : (∀ n, s.summary.fate ≠ .died n) → s.summary.drops = 0
  finished : ∀ n, s.summary.fate = .finished n →
    ∃ u u', entered.Passes s u u' ∧ u'.tick = n ∧ u.Exhausts u'

theorem Dies.present {drops : List Enemy.Drop} (dies : s.Dies drops) : s.enemy ≠ none := by
  obtain ⟨body, hbody, -⟩ := dies
  simp [Option.mem_def.mp hbody]

/-- A tick in which the script dies decides the fate for good. -/
theorem Passes.died (henters : ofEnemy? setting seed name = some entered)
    (passes : entered.Passes s u u') {drops : List Enemy.Drop} (dies : u.Dies drops) :
    s.summary.fate = .died u'.tick ∧ s.summary.drops = dropCount drops := by
  cases passes.before.decides henters passes.tick with
  | absent gone _ _ _ => exact absurd gone dies.present
  | stays _ _ lives _ _ | left _ _ lives _ _ | finished _ _ lives _ _ _ =>
      exact absurd dies (lives drops)
  | died present gone' _ fate counted =>
      have before := passes.before.fateMatches henters
      have hnone := before.drops (before.alive.mpr present)
      have reaches' := passes.before.tick passes.tick
      obtain ⟨fate', drops'⟩ := reaches'.final henters (by simp [fate]) passes.after
      refine ⟨fate'.trans fate, ?_⟩
      rw [drops', counted drops dies, hnone, Nat.zero_add]

theorem Reaches.fated (henters : ofEnemy? setting seed name = some entered)
    (reaches : entered.Reaches s) : entered.Fated s := by
  have decision : ∀ {n}, s.summary.fate.tick? = some n → ∃ u u', entered.Passes s u u' ∧
      u.summary.fate = .alive ∧ u.Decides u' ∧
      u'.summary.fate = s.summary.fate ∧ u'.summary.drops = s.summary.drops := by
    intro n hn
    have decided : s.summary.fate ≠ .alive := by
      intro halive
      rw [Fate.tick?_eq_none.mpr halive] at hn
      cases hn
    obtain ⟨u, u', passes, hu, same⟩ := reaches.decided henters decided
    exact ⟨u, u', passes, hu, passes.before.decides henters passes.tick, same⟩
  exact {
    alive := (reaches.fateMatches henters).alive
    final := fun decided s' later => reaches.final henters decided later
    decided := by
      intro n hn
      obtain ⟨u, u', passes, hu, decides, fate, -⟩ := decision hn
      refine ⟨u, u', passes, ?_, hu, fate⟩
      rw [← fate] at hn
      cases decides with
      | absent _ _ same _ | stays _ _ _ same _ => simp [same, hu, Fate.tick?] at hn
      | died _ _ _ hfate _ | left _ _ _ hfate _ | finished _ _ _ hfate _ _ =>
          simpa [hfate, Fate.tick?] using hn
    died := by
      intro n
      constructor
      · intro hdied
        obtain ⟨u, u', passes, hu, decides, fate, -⟩ := decision (n := n) (by rw [hdied]; rfl)
        rw [hdied] at fate
        cases decides with
        | absent _ _ same _ | stays _ _ _ same _ => simp [same, hu] at fate
        | left _ _ _ hfate _ | finished _ _ _ hfate _ _ => simp [hfate] at fate
        | died _ _ dies hfate _ =>
            obtain ⟨drops, dies⟩ := dies
            refine ⟨u, u', drops, passes, ?_, dies⟩
            simpa [hfate] using fate
      · rintro ⟨u, u', drops, passes, rfl, dies⟩
        exact (passes.died henters dies).1
    drops := by
      intro u u' drops passes dies
      rw [(passes.died henters dies).2]
      exact dropCount_eq_sum drops
    noDrops := by
      intro lives
      have matched := reaches.fateMatches henters
      by_cases halive : s.summary.fate = .alive
      · exact matched.drops halive
      · obtain ⟨u, u', passes, hu, fate, drops⟩ := reaches.decided henters halive
        have hnone := (passes.before.fateMatches henters).drops hu
        rw [← drops, ← hnone]
        cases passes.before.decides henters passes.tick with
        | absent _ _ _ same | stays _ _ _ _ same | left _ _ _ _ same | finished _ _ _ _ same _ =>
            exact same
        | died _ _ _ hfate _ => exact absurd (fate.symm.trans hfate) (lives _)
    finished := by
      intro n hfinished
      obtain ⟨u, u', passes, hu, decides, fate, -⟩ := decision (n := n) (by rw [hfinished]; rfl)
      rw [hfinished] at fate
      cases decides with
      | absent _ _ same _ | stays _ _ _ same _ => simp [same, hu] at fate
      | died _ _ _ hfate _ | left _ _ _ hfate _ => simp [hfate] at fate
      | finished _ _ _ hfate _ exhausts =>
          exact ⟨u, u', passes, by simpa [hfate] using fate, exhausts⟩ }

/--
**The fate of the enemy is decided once.**  After any number of ticks the fate is open
just if the enemy is on stage, and a fate that has been decided names the tick in which
that was done and never changes.  It is death just if the script came to an instruction
to die in that tick; then, and only then, items are dropped, and their number is the sum
over the drops of that moment.  An enemy is finished only where its script is over, no
shot is running, and velocity and acceleration are zero.  What a run reports is what
stands on a stage that it has led to.
-/
theorem fate_decided (setting : Setting Float32) (seed : UInt64) (enemy : String) (entered : Stage)
    (henters : ofEnemy? setting seed enemy = some entered) :
    (∀ s, entered.Reaches s → entered.Fated s) ∧
      ∀ limit summary seen, entered.run limit = .ok (summary, seen) →
        ∃ s, entered.Reaches s ∧ summary = s.totals := by
  refine ⟨fun s reaches => reaches.fated henters, fun limit summary seen hrun => ?_⟩
  exact reaches_of_run hrun

/-- An enemy that thinks better of its drops, and dies. -/
def martyr : Catalog Float32 where
  bullets := []
  shots := []
  enemies := [.ofInstructions "martyr" "Drops two items"
    [Enemy.Command.addDrop 1 5, Enemy.Command.clearDrops, Enemy.Command.addDrop 1 2,
      Enemy.Command.addDrop 2 (-3), Enemy.Command.die]]

def martyrSetting : Setting Float32 :=
  { splitterSetting with library := martyr.install }

theorem fate_decided_martyr : ∃ entered s u u' drops,
    ofEnemy? martyrSetting 7 "martyr" = some entered ∧ entered.Reaches s ∧
      s.summary.fate = .died 1 ∧ s.summary.drops = 2 ∧ s.tick = 3 ∧
      entered.Passes s u u' ∧ u'.tick = 1 ∧ u.Dies drops ∧
      (drops.map fun d => max d.count.toInt 0).sum = 2 := by
  obtain ⟨entered, s₁, s₂, s, henters, h₁, h₂, h₃, hfate, hdrops, htick⟩ : ∃ entered s₁ s₂ s,
      ofEnemy? martyrSetting 7 "martyr" = some entered ∧ entered.step = .ok s₁ ∧
        s₁.step = .ok s₂ ∧ s₂.step = .ok s ∧ s.summary.fate = .died 1 ∧ s.summary.drops = 2 ∧
        s.tick = 3 :=
    ⟨_, _, _, _, rfl, rfl, rfl, rfl, rfl, rfl, rfl⟩
  have reaches : entered.Reaches s := .tick (.tick (.tick .start h₁) h₂) h₃
  have fated := (fate_decided martyrSetting 7 "martyr" entered henters).1 s reaches
  obtain ⟨u, u', drops, passes, hu', dies⟩ := (fated.died 1).mp hfate
  have counted := fated.drops u u' drops passes dies
  rw [hdrops] at counted
  exact ⟨entered, s, u, u', drops, henters, reaches, hfate, hdrops, htick, passes, hu', dies,
    counted.symm⟩

end Barrage.Stage
