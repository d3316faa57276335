/-
What a tick does with the shots of an enemy.

The shots are run in order, each on the world that the one before it has left, and with
its emitter brought to where its fire slot is at present.  `ShotTurn` says of one shot
when its turn is; it does not ask for the tick to be completed, since a shot has its turn
also if a later one crashes.  `Relay` are the reports of all shots in a tick that is
completed.

A bullet leaves from the muzzle of the emitter that asks for it.  No instruction moves the
origin of an emitter, so this is the place of the fire slot for every bullet that is asked
for in the tick, whatever the script does to the offsets on its way.
-/
import Barrage.Actor
import Barrage.Proofs.Shot.Volley

namespace Barrage

variable {α η : Type} [Scalar α]

/-! ### Bullets leave from where the emitter is

What is asked for in a tick is followed back to the instruction that asks.  The origin
of the emitter goes along as part of the same induction, since it is what the place of
every bullet is reckoned from and no instruction moves it.
-/

namespace Shot

variable {host : Host α η} {i : Instruction Kind α} {e e' : Emitter α}
  {s s' : η × List (HostCall α)} {rounds : List (Round α)} {c c' : Cursor Kind α} {h h' : η}
  {calls : List (HostCall α)} {t t' : Pulse Kind α (Emitter α × η × List (HostCall α))}
  {launch : Bullet.Launch α} {running : Bool}

/-- An instruction fires the bullet: this is what the emitter asks for with a round of the volley,
and it leaves from the muzzle, by the offset of the round. -/
inductive Sends (host : Host α η) (i : Instruction Kind α) (e : Emitter α)
    (s : η × List (HostCall α)) (launch : Bullet.Launch α) : Prop
  | intro {rounds : List (Round α)} {s' : η × List (HostCall α)} {r : Round α} {deviation : α}
      (volley : volley? host.recorded i e s = .ok (some rounds, s')) (mem : r ∈ rounds)
      (asked : e.request? host.toSetting deviation r = some launch)
      (leaves : launch.position = e.origin + e.offset + r.offset)

/-- A script fires the bullet in a tick: an instruction does at some point of it, while the origin
of the emitter is `origin`. -/
inductive FiresFrom (origin : Vec2 α) (host : Host α η) (c : Cursor Kind α) (e : Emitter α) (h : η)
    (launch : Bullet.Launch α) : Prop
  | intro {t : Pulse Kind α (Emitter α × η × List (HostCall α))} {i : Instruction Kind α}
      (within : (Pulse.ofCursor c (e, h, [])).Within (interpreter host.recorded) t)
      (runs : t.Runs i) (sends : Sends host i t.state.1 t.state.2 launch)
      (here : t.state.1.origin = origin)

theorem request?_position {setting : Setting α} {deviation : α} {r : Round α}
    (asked : e.request? setting deviation r = some launch) :
    launch.position = e.origin + e.offset + r.offset := by
  obtain ⟨sprite, -, rfl⟩ := Option.map_eq_some_iff.mp asked
  rfl

theorem Strays.quiet {strays : List (HostCall α)} {deviation : α}
    (stray : Strays e strays deviation) : strays.filterMap HostCall.request? = [] := by
  cases stray <;> rfl

theorem adjust_origin (host : Host α η) (i : Instruction Kind α) (e : Emitter α) (h : η) :
    (adjust host i e h).1.origin = e.origin := by
  unfold adjust
  cases i.kind
  case aimAtPlayer => cases host.headingToPlayer? e.muzzle <;> rfl
  all_goals rfl

/-- What all bullets have that were asked for, and those that an instruction sends, all have after
the instruction.  The origin stays as it is. -/
theorem act_sends {P : Bullet.Launch α → Prop}
    (before : ∀ call ∈ s.2, ∀ launch ∈ call.request?, P launch)
    (sends : ∀ launch, Sends host i e s launch → P launch)
    (hact : act host.recorded i e s = .ok (e', s')) :
    e'.origin = e.origin ∧ ∀ call ∈ s'.2, ∀ launch ∈ call.request?, P launch := by
  have keeps : host.recorded.KeepsAside fun s =>
      ∀ call ∈ s.2, ∀ launch ∈ call.request?, P launch :=
    Host.recorded_keepsAside (by simp [HostCall.request?]) (by simp [HostCall.request?])
      (by simp [HostCall.request?])
  obtain ⟨⟨described, s₁⟩, hvolley, hrest⟩ := bind_eq_ok.mp hact
  have drawn := volley?_keeps keeps before hvolley
  cases described with
  | none =>
      have origin := adjust_origin host.recorded i e s₁
      have kept := (adjust_keeps (i := i) (e := e) keeps drawn).2
      rw [Except.ok.inj hrest] at origin kept
      exact ⟨origin, kept⟩
  | some rounds =>
      obtain ⟨strays, deviation, answers, stray, hlength, hcalls, rfl⟩ := fire_recorded hrest
      refine ⟨rfl, ?_⟩
      rw [hcalls, List.forall_mem_append]
      refine ⟨drawn, fun call hcall launch hlaunch => ?_⟩
      have asked := List.mem_filterMap.mpr ⟨call, hcall, hlaunch⟩
      rw [requests_zipWith stray.quiet hlength] at asked
      obtain ⟨r, hr, hask⟩ := List.mem_filterMap.mp asked
      exact sends launch ⟨hvolley, hr, hask, request?_position hask⟩

/-- A bullet that is asked for in a step is sent by the instruction that is run. -/
theorem step_fires {r : Step Kind α (Emitter α × η × List (HostCall α))}
    (hwithin : (Pulse.ofCursor c (e, h, [])).Within (interpreter host.recorded) t)
    (before : t.state.1.origin = e.origin ∧
      ∀ call ∈ t.state.2.2, ∀ launch ∈ call.request?, FiresFrom e.origin host c e h launch)
    (hstep : t.step (interpreter host.recorded) = .ok r) :
    r.state.1.origin = e.origin ∧
      ∀ call ∈ r.state.2.2, ∀ launch ∈ call.request?, FiresFrom e.origin host c e h launch := by
  obtain ⟨here, fired⟩ := before
  rcases (Pulse.outcome_of_step hstep).state_cases with
    same | ⟨i, run, ⟨signal, call⟩ | ⟨phase, answer, left, call⟩⟩
  · rw [same]
    exact ⟨here, fired⟩
  · obtain ⟨state, hact, call⟩ := bind_eq_ok.mp call
    obtain ⟨-, rfl⟩ := Prod.mk.inj (Except.ok.inj call)
    obtain ⟨origin, fired'⟩ :=
      act_sends fired (fun launch sends => .intro hwithin run sends here) hact
    exact ⟨origin.trans here, fired'⟩
  · obtain ⟨baseAngle, hstate⟩ := timed_turns call
    rw [hstate]
    exact ⟨here, fired⟩

/-- Every bullet that is asked for up to a point of a tick is one that an instruction has sent. -/
theorem within_fires (hwithin : (Pulse.ofCursor c (e, h, [])).Within (interpreter host.recorded) t) :
    t.state.1.origin = e.origin ∧
      ∀ call ∈ t.state.2.2, ∀ launch ∈ call.request?, FiresFrom e.origin host c e h launch := by
  induction hwithin with
  | start => exact ⟨rfl, List.forall_mem_nil _⟩
  | next hbefore hstep ih => exact step_fires hbefore ih hstep

/-- In a tick a script asks only for bullets that it fires from where the emitter is. -/
theorem update_fires
    (hu : update host.recorded c e (h, []) = .ok (running, c', e', h', calls)) :
    ∀ launch ∈ calls.filterMap HostCall.request?, FiresFrom e.origin host c e h launch := by
  have fired : ∀ call ∈ calls, ∀ launch ∈ call.request?, FiresFrom e.origin host c e h launch := by
    by_cases finished : c.finished = true
    · rw [update, Cursor.update_finished finished] at hu
      cases hu
      exact List.forall_mem_nil _
    · obtain ⟨t, hwithin, hlast⟩ :=
        Cursor.update_within (Bool.eq_false_of_not_eq_true finished) hu
      have before := within_fires hwithin
      rcases hlast with hstep | ⟨-, -, hstate⟩
      · exact (step_fires hwithin before hstep).2
      · rw [← hstate] at before
        exact before.2
  intro launch hlaunch
  obtain ⟨call, hcall, hask⟩ := List.mem_filterMap.mp hlaunch
  exact fired call hcall launch hask

end Shot

/-! ### Each shot has its turn on the world of those before it

What one shot leaves alone, all of them leave alone, and what crashes all of them
crashes one in its turn.  These two are all that other modules need to know of the list.
-/

namespace Enemy

variable {host : Host α η} {origin : Int32 → Vec2 α} {shots kept : List (ActiveShot α)}
  {shot : ActiveShot α} {h h' : η}

/-- The emitter of a shot, brought to where its fire slot is. -/
def ActiveShot.carried (origin : Int32 → Vec2 α) (shot : ActiveShot α) : Shot.Emitter α :=
  { shot.emitter with origin := origin shot.slot }

/-- Among some shots that are run one after the other, it is the turn of `shot`. -/
inductive ShotTurn (host : Host α η) (origin : Int32 → Vec2 α) :
    List (ActiveShot α) → η → ActiveShot α → η → Prop
  | now {shot : ActiveShot α} {rest : List (ActiveShot α)} {h : η} :
      ShotTurn host origin (shot :: rest) h shot h
  | later {first shot : ActiveShot α} {rest : List (ActiveShot α)} {h h₁ h' : η} {running : Bool}
      {script : Cursor Shot.Kind α} {emitter : Shot.Emitter α}
      (ran : Shot.update host first.script (first.carried origin) h
        = .ok (running, script, emitter, h₁))
      (turn : ShotTurn host origin rest h₁ shot h') :
      ShotTurn host origin (first :: rest) h shot h'

/-- Every tick of a shot that has `A`, on a world that has `H`, leaves them so. -/
def ShotsKeep (host : Host α η) (origin : Int32 → Vec2 α) (A : ActiveShot α → Prop) (H : η → Prop) :
    Prop :=
  ∀ shot h running script emitter h', A shot → H h →
    Shot.update host shot.script (shot.carried origin) h = .ok (running, script, emitter, h') →
    A { shot with script, emitter } ∧ H h'

variable {A : ActiveShot α → Prop} {H : η → Prop}

theorem ShotTurn.keeps (keep : ShotsKeep host origin A H) (hshots : ∀ shot ∈ shots, A shot)
    (hh : H h) (turn : ShotTurn host origin shots h shot h') : A shot ∧ H h' := by
  induction turn with
  | now => exact ⟨hshots _ List.mem_cons_self, hh⟩
  | later ran _ ih =>
      have hfirst := keep _ _ _ _ _ _ (hshots _ List.mem_cons_self) hh ran
      exact ih (fun shot hmem => hshots shot (List.mem_cons_of_mem _ hmem)) hfirst.2

theorem advanceShots_keeps (keep : ShotsKeep host origin A H) (hshots : ∀ shot ∈ shots, A shot)
    (hh : H h) (hadvance : advanceShots host origin shots h = .ok (kept, h')) :
    (∀ shot ∈ kept, A shot) ∧ H h' := by
  induction shots generalizing h kept with
  | nil =>
      cases hadvance
      exact ⟨hshots, hh⟩
  | cons first rest ih =>
      obtain ⟨⟨running, script, emitter, h₁⟩, ran, hadvance⟩ := bind_eq_ok.mp hadvance
      obtain ⟨⟨others, h₂⟩, hothers, hadvance⟩ := bind_eq_ok.mp hadvance
      cases hadvance
      obtain ⟨hfirst, hh₁⟩ := keep _ _ _ _ _ _ (hshots _ List.mem_cons_self) hh ran
      obtain ⟨hrest, hh'⟩ :=
        ih (fun shot hmem => hshots shot (List.mem_cons_of_mem _ hmem)) hh₁ hothers
      refine ⟨fun shot hmem => ?_, hh'⟩
      cases running with
      | false => exact hrest shot hmem
      | true =>
          rcases List.mem_cons.mp hmem with rfl | hmem
          · exact hfirst
          · exact hrest shot hmem

/-- Every shot has its turn in a tick that is completed. -/
theorem exists_shotTurn (hadvance : advanceShots host origin shots h = .ok (kept, h'))
    (hmem : shot ∈ shots) : ∃ h₁, ShotTurn host origin shots h shot h₁ := by
  induction shots generalizing h kept h' with
  | nil => cases hmem
  | cons first rest ih =>
      obtain ⟨⟨running, script, emitter, h₁⟩, ran, hadvance⟩ := bind_eq_ok.mp hadvance
      obtain ⟨⟨others, h₂⟩, hothers, -⟩ := bind_eq_ok.mp hadvance
      rcases List.mem_cons.mp hmem with rfl | hmem
      · exact ⟨h, .now⟩
      · obtain ⟨h₃, turn⟩ := ih hothers hmem
        exact ⟨h₃, .later ran turn⟩

/-- The shots of an enemy crash just if one of them does in its turn. -/
theorem advanceShots_eq_error {e : Crash} : advanceShots host origin shots h = .error e ↔
    ∃ shot h', ShotTurn host origin shots h shot h' ∧
      Shot.update host shot.script (shot.carried origin) h' = .error e := by
  constructor
  · intro hadvance
    induction shots generalizing h with
    | nil => cases hadvance
    | cons first rest ih =>
        rcases bind_eq_error.mp hadvance with hfirst | ⟨⟨running, script, emitter, h₁⟩, ran, hrest⟩
        · exact ⟨first, h, .now, hfirst⟩
        · rcases bind_eq_error.mp hrest with hothers | ⟨_, -, hdone⟩
          · obtain ⟨shot, h', turn, hcrash⟩ := ih hothers
            exact ⟨shot, h', .later ran turn, hcrash⟩
          · cases hdone
  · rintro ⟨shot, h', turn, hcrash⟩
    induction turn with
    | now => exact bind_eq_error.mpr (Or.inl hcrash)
    | later ran _ ih =>
        exact bind_eq_error.mpr (Or.inr ⟨_, ran, bind_eq_error.mpr (Or.inl (ih hcrash))⟩)

variable {b b' : Body α}

/-- A tick of the shots leaves those that are kept, and says how many they are. -/
theorem tickShots_cases {left : Nat} (ht : tickShots host b h = .ok (left, b', h')) :
    ∃ kept, advanceShots host b.fireOrigin b.shots h = .ok (kept, h') ∧
      b' = { b with shots := kept } ∧ left = kept.length := by
  obtain ⟨⟨kept, h₁⟩, hadvance, ht⟩ := bind_eq_ok.mp ht
  cases ht
  exact ⟨kept, hadvance, rfl, rfl⟩

theorem tickShots_eq_error {e : Crash} : tickShots host b h = .error e ↔
    advanceShots host b.fireOrigin b.shots h = .error e := by
  simp [tickShots, bind_eq_error, pure, Except.pure]

/-! ### A completed tick is a relay

The worlds are numbered rather than threaded through the list, so that the turn of each
shot can be spoken of without those before it.  What is kept is read off the reports.
-/

/-- What comes of a shot in its turn: whether its script has more, what the script and the emitter
then are, and the calls that were made. -/
structure ShotReport (α : Type) [Scalar α] where
  running : Bool
  script : Cursor Shot.Kind α
  emitter : Shot.Emitter α
  calls : List (HostCall α)

/-- The shot as its turn leaves it, if its script has more. -/
def ShotReport.left? (report : ShotReport α) (shot : ActiveShot α) : Option (ActiveShot α) :=
  if report.running then some { shot with script := report.script, emitter := report.emitter }
  else none

/-- The shots that are left, in order. -/
def leftover (shots : List (ActiveShot α)) (reports : List (ShotReport α)) :
    List (ActiveShot α) :=
  (shots.zip reports).filterMap fun (shot, report) => report.left? shot

theorem leftover_cons (shot : ActiveShot α) (shots : List (ActiveShot α)) (report : ShotReport α)
    (reports : List (ShotReport α)) : leftover (shot :: shots) (report :: reports) =
      (report.left? shot).toList ++ leftover shots reports := by
  unfold leftover
  rw [List.zip_cons_cons, filterMap_cons_toList]

/-- Some shots hand a world on.  Shot `k` finds it as `worlds k` and leaves it as `worlds (k + 1)`,
and each has one report. -/
structure Relay (host : Host α η) (origin : Int32 → Vec2 α) (shots : List (ActiveShot α)) (h : η)
    (reports : List (ShotReport α)) (worlds : Nat → η) : Prop where
  start : worlds 0 = h
  once : reports.length = shots.length
  ran : ∀ {k : Nat} {shot : ActiveShot α} {report : ShotReport α}, shots[k]? = some shot →
    reports[k]? = some report →
    Shot.update host.recorded shot.script (shot.carried origin) (worlds k, []) =
      .ok (report.running, report.script, report.emitter, worlds (k + 1), report.calls)

theorem Relay.nil (host : Host α η) (origin : Int32 → Vec2 α) (h : η) :
    Relay host origin [] h [] fun _ => h where
  start := rfl
  once := rfl
  ran := by simp

theorem Relay.cons {report : ShotReport α} {reports : List (ShotReport α)} {worlds : Nat → η}
    {h₁ : η} (ran : Shot.update host.recorded shot.script (shot.carried origin) (h, []) =
      .ok (report.running, report.script, report.emitter, h₁, report.calls))
    (more : Relay host origin shots h₁ reports worlds) :
    Relay host origin (shot :: shots) h (report :: reports)
      fun | 0 => h | k + 1 => worlds k where
  start := rfl
  once := congrArg (· + 1) more.once
  ran {k shot' report'} hshot hreport := by
    cases k with
    | zero =>
        cases hshot
        cases hreport
        rw [← more.start] at ran
        exact ran
    | succ k => exact more.ran hshot hreport

/-- Shots that are advanced hand the world on, and those are kept that have more. -/
theorem exists_relay (hadvance : advanceShots host origin shots h = .ok (kept, h')) :
    ∃ reports worlds, Relay host origin shots h reports worlds ∧
      kept = leftover shots reports ∧ h' = worlds shots.length := by
  induction shots generalizing h kept h' with
  | nil =>
      cases hadvance
      exact ⟨[], _, .nil host origin h, rfl, rfl⟩
  | cons shot rest ih =>
      obtain ⟨⟨running, script, emitter, h₁⟩, ran, hadvance⟩ := bind_eq_ok.mp hadvance
      obtain ⟨⟨others, h₂⟩, hothers, hadvance⟩ := bind_eq_ok.mp hadvance
      -- The record begins anew with each shot, so that it holds the calls of this one alone.
      obtain ⟨calls, recorded⟩ :=
        (ok_iff_recorded (Shot.update_unrecorded shot.script _ (h, []))).mp ran
      obtain ⟨reports, worlds, more, rfl, rfl⟩ := ih hothers
      cases hadvance
      have first : Shot.update host.recorded shot.script (shot.carried origin) (h, []) = _ :=
        recorded
      refine ⟨⟨running, script, emitter, calls⟩ :: reports, _, .cons first more, ?_, rfl⟩
      rw [leftover_cons]
      cases running <;> rfl

section Relay

variable {reports : List (ShotReport α)} {worlds : Nat → η}

/-- As many shots are left as have more. -/
theorem leftover_length (once : reports.length = shots.length) :
    (leftover shots reports).length = reports.countP (·.running) := by
  induction shots generalizing reports with
  | nil =>
      rw [List.length_eq_zero_iff.mp once]
      rfl
  | cons shot rest ih =>
      obtain _ | ⟨report, others⟩ := reports
      · cases once
      · rw [leftover_cons, List.length_append, ih (Nat.succ.inj once), List.countP_cons,
          Nat.add_comm]
        unfold ShotReport.left?
        cases report.running <;> rfl

/-- No shot is left whose script is over. -/
theorem Relay.active (relay : Relay host origin shots h reports worlds) :
    ∀ shot ∈ leftover shots reports, shot.script.finished = false := by
  intro left hleft
  obtain ⟨⟨shot, report⟩, hmem, hreport⟩ := List.mem_filterMap.mp hleft
  obtain ⟨k, hk⟩ := List.mem_iff_getElem?.mp hmem
  obtain ⟨hshot, hrep⟩ := List.getElem?_zip_eq_some.mp hk
  have ran := relay.ran hshot hrep
  simp only [ShotReport.left?] at hreport
  split at hreport
  · rename_i running
    cases hreport
    rw [running] at ran
    exact Cursor.unfinished_of_running ran
  · cases hreport

end Relay

/-- What a tick of the shots of an enemy comes to. -/
inductive Advances (host : Host α η) (b : Body α) (h : η) :
    Except Crash (Nat × Body α × η) → Prop
  /-- Every shot has had its turn, and has fired from where its fire slot is. -/
  | relayed {reports : List (ShotReport α)} {worlds : Nat → η}
      (relay : Relay host b.fireOrigin b.shots h reports worlds)
      (fired : ∀ {k : Nat} {shot : ActiveShot α} {report : ShotReport α},
        b.shots[k]? = some shot → reports[k]? = some report →
        ∀ launch ∈ report.calls.filterMap HostCall.request?,
          Shot.FiresFrom (b.position + b.fireOffsets[shot.slot]?.getD .zero) host shot.script
            (shot.carried b.fireOrigin) (worlds k) launch)
      (number : (leftover b.shots reports).length = reports.countP (·.running))
      (active : ∀ shot ∈ leftover b.shots reports, shot.script.finished = false) :
      Advances host b h
        (.ok ((leftover b.shots reports).length, { b with shots := leftover b.shots reports },
          worlds b.shots.length))
  /-- A shot has crashed in its turn. -/
  | crashed {shot : ActiveShot α} {h' : η} {crash : Crash}
      (turn : ShotTurn host b.fireOrigin b.shots h shot h')
      (fails : Shot.update host shot.script (shot.carried b.fireOrigin) h' = .error crash) :
      Advances host b h (.error crash)

/--
**Active shots are advanced in order, once each, from where the enemy is now.**  Every shot
is run once, on the world that the one before it has left and with its emitter at the
present place of its fire slot; so every bullet leaves from there, by the offset of the
emitter and its own.  Those shots are kept, in order, whose scripts have more, their number
is reported, and nothing else of the enemy changes.  No shot is kept whose script is over.
A tick that is not completed has crashed in the turn of one shot.
-/
theorem tickShots_relays (host : Host α η) (c : Cursor Kind α) (b : Body α) (h : η) :
    Advances host b h (tickShots host b h) ∧
      (Actor.enemy c b).tickShots host h =
        (fun (left, b', h') => (⟨none, some left⟩, .enemy c b', h')) <$> tickShots host b h := by
  constructor
  · cases hadvance : advanceShots host b.fireOrigin b.shots h with
    | error crash =>
        obtain ⟨shot, h', turn, fails⟩ := advanceShots_eq_error.mp hadvance
        rw [tickShots_eq_error.mpr hadvance]
        exact .crashed turn fails
    | ok left =>
        obtain ⟨kept, h'⟩ := left
        obtain ⟨reports, worlds, relay, rfl, rfl⟩ := exists_relay hadvance
        unfold tickShots
        rw [hadvance]
        refine .relayed relay (fun hshot hreport => ?_) (leftover_length relay.once) relay.active
        exact Shot.update_fires (relay.ran hshot hreport)
  · simp only [Actor.tickShots]
    cases tickShots host b h <;> rfl

/-- A shot next to one that is dropped is neither skipped nor advanced twice. -/
example :
    let shot (name : String) (ticks : Int32) : ActiveShot Float32 :=
      ⟨name, 0, .ofOrigin .zero, .ofProgram (.assemble #[.wait ticks] [] (by simp))⟩
    let b := { Body.ofPosition .zero with shots := [shot "long" 3, shot "spent" 0, shot "short" 1] }
    ∃ b' r, tickShots (Recorder.host (.bare Float32) true) b (.ofChance (.scripted #[0.5] 0)) =
        .ok (2, b', r) ∧
      b'.shots.map (fun shot => (shot.name, shot.script.frame)) = [("long", 1), ("short", 1)] :=
  ⟨_, _, rfl, rfl⟩

end Enemy

end Barrage
