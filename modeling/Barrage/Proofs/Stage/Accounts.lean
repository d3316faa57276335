/-
The totals of a stage balance.

A bullet is asked for by a shot or for a split, waits in the queue, takes off, and leaves
the field at last; the totals count it on the way, and so does the emitter that it
comes from.  `Books` keeps accounts of its own over a run, with the bullets that were
asked for in every tick and the emitters that were dropped in it.  Against these the
totals are checked.
-/
import Barrage.Proofs.Stage.Requests

namespace Barrage.Stage

/-! ### The books

Of the two stages of an entry the equations use the bullets on the field alone.  The
rest comes from `TickAsks`, which reads it off the records of the tick: the bullets that
were asked for, and the emitters that went.  So no total is compared with itself.
-/

/-- A tick in the books. -/
structure Entry where
  before : Stage
  after : Stage
  /-- The bullets that were asked for. -/
  asked : List (Bullet.Launch Float32)
  /-- The emitters that were dropped. -/
  dropped : List (Shot.Emitter Float32)

/-- Ticks lead from one stage to another, and these are the entries for them. -/
inductive Books (s : Stage) : List Entry → Stage → Prop
  | start : Books s [] s
  | tick {entries : List Entry} {t t' : Stage} {asked : List (Bullet.Launch Float32)}
      {dropped : List (Shot.Emitter Float32)} (h : Books s entries t) (hstep : t.step = .ok t')
      (asks : t.TickAsks asked dropped) : Books s (entries ++ [⟨t, t', asked, dropped⟩]) t'

/-- The totals of a stage agree with the books. -/
structure Balances (s : Stage) (entries : List Entry) : Prop where
  /-- Every bullet that has taken off is on the field or was removed. -/
  tookOff : s.summary.fired = s.bullets.length + s.summary.culled
  /-- Every bullet that was asked for has taken off or waits in the queue. -/
  asked : s.summary.fired + s.world.store.queued.size = (entries.flatMap (·.asked)).length
  /-- Every one of them was counted by an emitter, of which all are listed that ever ran, or is
  a split. -/
  counted : (entries.flatMap (·.asked)).length =
    firedBy (entries.flatMap (·.dropped) ++ s.emitters) + s.summary.refired
  peak : s.summary.peak = (entries.map (·.after.bullets.length)).foldl max 0

variable {setting : Setting Float32} {host : Host Float32 World} {s s' : Stage} {w w' : World}
  {bullets bullets' : List LiveBullet} {splits asked : List (Bullet.Launch Float32)}
  {dropped : List (Shot.Emitter Float32)} {entries : List Entry}

/-! ### The totals of a tick

Where a bullet goes on to the next place on its way, one number goes down and another
goes up.  `Posted` says this of a whole tick; nothing is subtracted, since the numbers
are natural.
-/

theorem stepAll_length (hall : stepAll host bullets w = .ok (bullets', splits, w')) :
    bullets'.length = bullets.length := by
  induction bullets generalizing w bullets' splits w' with
  | nil =>
      cases hall
      rfl
  | cons b rest ih =>
      obtain ⟨b', asked, w₁, rest', more, -, hrest, rfl, -⟩ := stepAll_cons hall
      exact congrArg (· + 1) (ih hrest)

/-- What is removed from the field is counted. -/
theorem cull_culled (s : Stage) :
    s.cull.bullets.length + s.cull.summary.culled = s.bullets.length + s.summary.culled := by
  have parted := List.length_eq_length_filter_add (l := s.bullets)
    fun b => outside b.motion.position
  have culled : s.cull.summary.culled =
      s.summary.culled + (s.bullets.filter fun b => outside b.motion.position).length := by
    show _ + (s.bullets.partition fun b => outside b.motion.position).1.length = _
    rw [List.partition_eq_filter_filter]
  rw [culled, cull_bullets]
  omega

/-- Bullets that are taken up are counted. -/
theorem collect_summary (s : Stage) : s.collect.summary =
    { s.summary with fired := s.summary.fired + s.world.store.queued.size } := by
  simp [collect]

/-- What the tick of the bullets does to the totals. -/
theorem stepBullets_totals (hall : stepAll s.host s.bullets s.world = .ok (bullets', splits, w'))
    (hstep : s.stepBullets = .ok s') : s'.enemy = s.enemy ∧
      s'.bullets.length + s'.summary.culled = s.bullets.length + s.summary.culled ∧
      ∃ culled, s'.summary = { s.summary with
        refired := s.summary.refired + splits.length, culled } := by
  obtain ⟨bullets'', splits'', w'', hall', rfl⟩ := stepBullets_cases hstep
  cases hall.symm.trans hall'
  refine ⟨?_, ?_, ?_⟩
  · rw [launchSplits_eq]
    rfl
  · rw [cull_culled, launchSplits_eq]
    exact congrArg (· + s.summary.culled) (stepAll_length hall)
  · rw [launchSplits_eq]
    exact ⟨_, rfl⟩

/-- What a tick does to the totals in which `launches` are asked for and `dropped` are dropped. -/
structure Posted (s s' : Stage) (launches : List (Bullet.Launch Float32))
    (dropped : List (Shot.Emitter Float32)) : Prop where
  tookOff : s'.summary.fired + (s.bullets.length + s.summary.culled) =
    s.summary.fired + (s'.bullets.length + s'.summary.culled)
  asked : s'.summary.fired + s'.world.store.queued.size =
    s.summary.fired + s.world.store.queued.size + launches.length
  counted : firedBy dropped + firedBy s'.emitters + s'.summary.refired =
    firedBy s.emitters + s.summary.refired + launches.length
  peak : s'.summary.peak = max s.summary.peak s'.bullets.length

theorem TickAsks.posted (inPlace : s.host.ShufflesInPlace) (underway : s.Has .underway)
    (hstep : s.step = .ok s') (asks : s.TickAsks asked dropped) : s.Posted s' asked dropped := by
  cases asks with
  | @intro s₁ asked splits dropped calls bullets w henemy asks made hall =>
      obtain ⟨s₁', s₂, henemy', hbullets, rfl⟩ := step_cases hstep
      cases henemy.symm.trans henemy'
      have collected := underway.collected (underway_kept s.setting) henemy
      -- the enemy and its shots
      obtain ⟨hwaiting, hcounted⟩ := asks.balance (s := s.begun) inPlace underway.begun henemy
      obtain ⟨hfield, drops, fate, htotals⟩ := stepEnemy_frame henemy
      have hqueue := congrArg List.length hwaiting
      rw [List.length_append, World.length_waiting, World.length_waiting] at hqueue
      -- the bullets
      obtain ⟨henemy₂, hculled, culled, htotals₂⟩ := stepBullets_totals hall hbullets
      have hqueue₂ := congrArg List.length (stepBullets_waiting collected.bullets hall hbullets)
      rw [World.length_waiting] at hqueue₂
      have hcollected : s₁.collect.bullets.length =
          s.bullets.length + s₁.world.store.queued.size := by
        simp [collect, hfield, begun]
      have hemitters : s₂.emitters = s₁.emitters := by
        rw [emitters, henemy₂]
        rfl
      have totals : s₂.summary = { s.summary with
          fired := s.summary.fired + s₁.world.store.queued.size
          refired := s.summary.refired + splits.length
          culled, drops, fate } := by
        rw [htotals₂, collect_summary, htotals]
        rfl
      have hfired : s₂.summary.fired = s.summary.fired + s₁.world.store.queued.size := by
        rw [totals]
      have hrefired : s₂.summary.refired = s.summary.refired + splits.length := by
        rw [totals]
      have hbefore : s₁.collect.summary.culled = s.summary.culled := by
        rw [collect_summary, htotals]
        rfl
      rw [made.silent collected.bullets, List.append_nil]
      refine ⟨?_, ?_, ?_, congrArg (max · _) (congrArg (·.peak) totals)⟩
      · show s₂.summary.fired + _ = _ + (s₂.bullets.length + s₂.summary.culled)
        omega
      · show s₂.summary.fired + s₂.world.store.queued.size = _
        rw [hfired, hqueue₂, hqueue, List.length_append, Nat.add_assoc, Nat.add_assoc,
          Nat.add_assoc]
        rfl
      · show firedBy dropped + firedBy s₂.emitters + s₂.summary.refired = _
        rw [hemitters, hcounted, hrefired, List.length_append]
        show firedBy s.emitters + _ + _ = _
        omega

/-! ### Entries

One more entry changes each equation by what `Posted` says of its tick.  So balance is
an induction over the entries, from an empty stage on.
-/

theorem Books.reaches (h : s.Books entries s') : s.Reaches s' := by
  induction h with
  | start => exact .start
  | tick _ hstep _ ih => exact ih.tick hstep

theorem Reaches.exists_books (h : s.Reaches s') : ∃ entries, s.Books entries s' := by
  induction h with
  | start => exact ⟨[], .start⟩
  | tick _ hstep ih =>
      obtain ⟨entries, before⟩ := ih
      obtain ⟨asked, dropped, asks⟩ := exists_tickAsks hstep
      exact ⟨_, before.tick hstep asks⟩

/-- One more entry balances again. -/
theorem Balances.posted {entry : Entry} (h : entry.before.Balances entries)
    (posted : entry.before.Posted entry.after entry.asked entry.dropped) :
    entry.after.Balances (entries ++ [entry]) := by
  have counted := h.counted
  have posted_counted := posted.counted
  refine ⟨?_, ?_, ?_, ?_⟩
  · have tookOff := h.tookOff
    have posted_tookOff := posted.tookOff
    omega
  · rw [posted.asked, h.asked]
    simp
  · simp only [List.flatMap_append, List.flatMap_singleton, List.length_append, firedBy_append]
      at counted ⊢
    omega
  · rw [posted.peak, h.peak, List.map_append, List.foldl_append]
    rfl

theorem balances_of_ofEnemy? {seed : UInt64} {name : String}
    (h : ofEnemy? setting seed name = some s) : s.Balances [] := by
  obtain ⟨script, -, h⟩ := Option.bind_eq_some_iff.mp h
  cases h
  exact ⟨rfl, rfl, rfl, rfl⟩

theorem Books.balances (inPlace : ∀ setting, (World.host setting).ShufflesInPlace)
    {seed : UInt64} {name : String} {entered : Stage}
    (henters : ofEnemy? setting seed name = some entered) (h : entered.Books entries s) :
    s.Balances entries := by
  induction h with
  | start => exact balances_of_ofEnemy? henters
  | @tick entries t t' asked dropped before hstep asks ih =>
      have posted := asks.posted (inPlace t.setting) (before.reaches.underway henters) hstep
      exact @Balances.posted entries ⟨t, t', asked, dropped⟩ ih posted

/-- All that the totals need of the generator: a shuffle loses none of the bullets. -/
theorem World.host_shufflesInPlace (setting : Setting Float32) :
    (World.host setting).ShufflesInPlace :=
  fun items w => Shot.shuffle_length items w.generator

/-- When the enemy is gone, all that is asked for in a tick are splits. -/
theorem TickAsks.of_gone (gone : s.enemy = none) (underway : s.Has .underway)
    (hstep : s.step = .ok s') (asks : s.TickAsks asked dropped) :
    s'.enemy = none ∧ ∃ splits, s.TickSplits splits ∧ asked = splits.map Split.launch := by
  cases asks with
  | @intro s₁ asked splits dropped calls bullets w henemy asks made hall =>
      obtain ⟨s₁', s₂, henemy', hbullets, rfl⟩ := step_cases hstep
      cases henemy.symm.trans henemy'
      have gone' : s.begun.enemy = none := gone
      obtain rfl := stepEnemy_of_none gone' henemy
      have collected := underway.collected (underway_kept s.setting) henemy
      obtain ⟨splits', hsplits⟩ := exists_splits hall
      obtain ⟨rfl, -⟩ := hsplits.launched collected.bullets hall
      refine ⟨(stepBullets_totals hall hbullets).1.trans gone, splits', ⟨_, henemy, hsplits⟩, ?_⟩
      have none : asked = [] := by
        cases asks with
        | absent _ => rfl
        | died ran _ | lives ran _ _ => cases gone.symm.trans ran.1
      rw [none, made.silent collected.bullets]
      rfl

theorem Books.of_gone (gone : s.enemy = none) (underway : s.Has .underway)
    (h : s.Books entries s') : s'.enemy = none ∧ s'.Has .underway ∧ ∀ entry ∈ entries,
      ∃ splits, entry.before.TickSplits splits ∧ entry.asked = splits.map Split.launch := by
  induction h with
  | start => exact ⟨gone, underway, by simp⟩
  | @tick entries t t' asked dropped before hstep asks ih =>
      obtain ⟨gone', underway', hentries⟩ := ih
      obtain ⟨gone'', hsplits⟩ := asks.of_gone gone' underway' hstep
      refine ⟨gone'', underway'.step (underway_kept _) hstep, fun entry hentry => ?_⟩
      rcases List.mem_append.mp hentry with hentry | hentry
      · exact hentries entry hentry
      · rw [List.mem_singleton.mp hentry]
        exact hsplits

/--
**The totals balance.**  Over any number of ticks, the bullets that took off are those on
the field and those that were removed; together with the queue they are the bullets that
were asked for, each of which was counted by an emitter or is a split; and the peak is
the largest number of bullets at the end of a tick.  Once the enemy is gone, only splits
are asked for.
-/
theorem totals_balance (setting : Setting Float32) (seed : UInt64) (enemy : String)
    (entered : Stage) (henters : ofEnemy? setting seed enemy = some entered) :
    (∀ s, entered.Reaches s → ∃ entries, entered.Books entries s) ∧
    (∀ entries s, entered.Books entries s → s.Balances entries) ∧
    ∀ s s' entries, entered.Reaches s → s.enemy = none → s.Books entries s' →
      ∀ entry ∈ entries, ∃ splits,
        entry.before.TickSplits splits ∧ entry.asked = splits.map Split.launch := by
  refine ⟨fun s reaches => reaches.exists_books,
    fun entries s h => h.balances World.host_shufflesInPlace henters, ?_⟩
  intro s s' entries reaches gone h
  exact (h.of_gone gone (reaches.underway henters)).2.2

theorem totals_balance_splitter : ∃ entered s entries,
    ofEnemy? splitterSetting 7 "guard" = some entered ∧ entered.step = .ok s ∧
      entered.Books entries s ∧ s.Balances entries ∧ s.summary.fired = 1 ∧
      s.summary.refired = 1 := by
  obtain ⟨entered, s, henters, hstep, hfired, hrefired⟩ : ∃ entered s,
      ofEnemy? splitterSetting 7 "guard" = some entered ∧ entered.step = .ok s ∧
        s.summary.fired = 1 ∧ s.summary.refired = 1 := by
    refine ⟨_, _, rfl, rfl, ?_, ?_⟩ <;> rfl
  obtain ⟨hbooks, hbalances, -⟩ := totals_balance splitterSetting 7 "guard" entered henters
  obtain ⟨entries, books⟩ := hbooks s (.tick .start hstep)
  exact ⟨entered, s, entries, henters, hstep, books, hbalances entries s books, hfired, hrefired⟩

end Barrage.Stage
