/-
The death of an enemy is final, and nothing is heard of the enemy after it.

An enemy is driven in three ways: its script is updated, it is moved, and its shots are
advanced.  `Drives` allows them in any order, each under any host and in any world, and
keeps all calls that are made on the way.

Two facts carry the proof.  As long as the script is not over, nothing has been destroyed,
since only an instruction to die does that and it ends the script; so a death makes the
first such call.  And it leaves the enemy without a handle, without shots and with a
script that is over, which is all that the three drivers could make a call for.
-/
import Barrage.Host.Recorder
import Barrage.Proofs.Enemy.Death
import Barrage.Proofs.Enemy.Shots

namespace Barrage

variable {α η : Type} [Scalar α]

/-- The call removes an entity. -/
def HostCall.destroys : HostCall α → Bool
  | destroy _ => true
  | _ => false

/-- The calls for sounds and for chance destroy nothing. -/
theorem Host.recorded_spares (host : Host α η) :
    host.recorded.KeepsAside fun s => ∀ call ∈ s.2, HostCall.destroys call = false :=
  recorded_keepsAside (fun _ _ => rfl) (fun _ _ _ => rfl) fun _ _ => rfl

namespace Enemy

/-- An enemy with its script, and all calls that were made for it and for its shots, in order. -/
structure Life (α : Type) [Scalar α] where
  script : Cursor Kind α
  body : Body α
  calls : List (HostCall α)

/-- The life of an enemy that is to run `p`, before anything has happened. -/
def Life.ofProgram (p : Program Kind α) (b : Body α) : Life α :=
  ⟨.ofProgram p, b, []⟩

/-- What the owner of an enemy does with it, under any host and in any world. -/
inductive Drives : Life α → Life α → Prop
  | update {x : Life α} {η : Type} {host : Host α η} {h h' : η} {running : Bool}
      {script : Cursor Kind α} {body : Body α} {asked : List (HostCall α)}
      (hu : update host.recorded x.script x.body (h, []) = .ok (running, script, body, h', asked)) :
      Drives x ⟨script, body, x.calls ++ asked⟩
  | integrate {x : Life α} : Drives x { x with body := x.body.integrate }
  | tickShots {x : Life α} {η : Type} {host : Host α η} {h h' : η} {body : Body α}
      {asked : List (HostCall α)}
      {left : Nat} (ht : tickShots host.recorded x.body (h, []) = .ok (left, body, h', asked)) :
      Drives x { x with body, calls := x.calls ++ asked }

/-- The enemy is dead and has nothing left that a call could be made for: whatever it is driven by
finds the world and leaves it as it is. -/
structure Life.Silent (x : Life α) : Prop where
  dead : x.body.dead = true
  handle : x.body.handle = none
  shots : x.body.shots = []
  finished : x.script.finished = true
  faultless : x.script.fault = none
  inert : ∀ {η : Type} (host : Host α η) (h : η),
    update host x.script x.body h = .ok (false, x.script, x.body, h)
  idle : ∀ {η : Type} (host : Host α η) (h : η), tickShots host x.body h = .ok (0, x.body, h)

variable {host : Host α η} {p : Program Kind α} {b : Body α} {h h' : η} {x y z : Life α}
  {running : Bool} {c' : Cursor Kind α} {b' : Body α} {asked : List (HostCall α)}

/-! ### Nothing is destroyed before the script is over

An update that goes on has not come to an instruction to die, and the last step of one
that does end the script is no part of this claim: it is the death itself.
-/

/-- All instructions but the one to die destroy nothing. -/
theorem spares_keepsAlive (host : Host α η) : KeepsAlive host.recorded fun state =>
    ∀ call ∈ state.2.2, HostCall.destroys call = false where
  instant _ _ _ hkind hs := act_keepsAside (Host.recorded_spares host) hkind hs
  timed := by
    intro i phase given state answer left state' hs call
    exact (timed_keeps (Host.recorded_spares host) hs call).2

/-- A tick that does not end the script destroys nothing. -/
theorem update_spares (unfinished : c'.finished = false)
    (hu : update host.recorded x.script x.body (h, []) = .ok (running, c', b', h', asked)) :
    ∀ call ∈ asked, call.destroys = false := by
  rcases update_tells hu with ⟨-, rest⟩ | ⟨⟨h₁, made⟩, hscript, htold⟩
  · cases rest
    exact List.forall_mem_nil _
  · have spared : ∀ call ∈ made, HostCall.destroys call = false := by
      by_cases finished : x.script.finished = true
      · rw [Cursor.update_finished finished] at hscript
        cases hscript
        exact List.forall_mem_nil _
      · obtain ⟨t, hwithin, hlast⟩ :=
          Cursor.update_within (Bool.eq_false_of_not_eq_true finished) hscript
        have before := (spares_keepsAlive host).within (List.forall_mem_nil _) hwithin
        rcases hlast with hstep | ⟨-, -, hstate⟩
        · rcases (spares_keepsAlive host).step before hstep with kept | ⟨i, run, hkind⟩
          · exact kept
          -- A step that destroys something would have ended the script.
          · rw [step_die run hkind, Except.ok.injEq, Step.done.injEq] at hstep
            obtain ⟨-, rfl, -⟩ := hstep
            cases unfinished
        · rw [← hstate] at before
          exact before
    unfold tell at htold
    cases hhandle : b'.handle <;> simp only [hhandle] at htold <;> cases htold
    · exact spared
    · simpa [HostCall.destroys, or_imp, forall_and] using spared

/-- The shots of an enemy destroy nothing. -/
theorem tickShots_spares {left : Nat}
    (ht : tickShots host.recorded b (h, []) = .ok (left, b', h', asked)) :
    ∀ call ∈ asked, call.destroys = false := by
  have keep : ShotsKeep host.recorded b.fireOrigin (fun _ => True) fun s =>
      ∀ call ∈ s.2, HostCall.destroys call = false := by
    intro shot s running script emitter s' _ hs hu
    have asks := Host.recorded_keepsAsking (L := fun launch => ∃ motion, True ∧
      Shot.Launched host.recorded.toSetting motion launch) (Host.recorded_spares host)
      fun _ _ _ => rfl
    have keeps := Shot.interpreter_preserves (p := shot.script.program) (M := fun _ => True) asks
      (fun _ _ _ => trivial) trivial
    exact ⟨trivial, (keeps.updated rfl ⟨trivial, hs⟩ hu).2⟩
  obtain ⟨kept, hadvance, -, -⟩ := tickShots_cases ht
  exact (advanceShots_keeps keep (fun _ _ => trivial) (List.forall_mem_nil _) hadvance).2

/-- What holds all along a life: as long as the script is not over, nothing has been destroyed. -/
structure Lived (p : Program Kind α) (x : Life α) : Prop where
  reachable : x.script.Reachable p
  spared : x.script.finished = false → ∀ call ∈ x.calls, call.destroys = false

theorem Lived.drives (lived : Lived p x) (drives : Drives x y) : Lived p y := by
  cases drives with
  | update hu =>
      obtain ⟨h₁, hscript, -⟩ := update_cases hu
      refine ⟨.update lived.reachable hscript, fun unfinished => ?_⟩
      refine List.forall_mem_append.mpr ⟨lived.spared ?_, update_spares unfinished hu⟩
      by_contra finished
      rw [Cursor.update_finished (Bool.eq_true_of_not_eq_false finished)] at hscript
      cases hscript
      exact finished unfinished
  | integrate => exact ⟨lived.reachable, lived.spared⟩
  | tickShots ht =>
      refine ⟨lived.reachable, fun unfinished => ?_⟩
      exact List.forall_mem_append.mpr ⟨lived.spared unfinished, tickShots_spares ht⟩

theorem lived_of_drives (drives : Relation.ReflTransGen Drives (.ofProgram p b) x) :
    Lived p x := by
  induction drives with
  | refl => exact ⟨.start, fun _ => List.forall_mem_nil _⟩
  | tail _ last ih => exact ih.drives last

/-! ### Nothing is left that a call could be made for

A silent enemy is a fixed point of all three drivers, so it stays silent by induction
and no call is added.  The silence speaks of every host, because the owner may bring
another one with each tick.
-/

theorem Life.silent (dead : x.body.dead = true) (handle : x.body.handle = none)
    (shots : x.body.shots = []) (finished : x.script.finished = true)
    (faultless : x.script.fault = none) : x.Silent where
  dead := dead
  handle := handle
  shots := shots
  finished := finished
  faultless := faultless
  inert host h := by
    unfold update
    rw [if_pos finished]
  idle host h := by
    unfold tickShots
    rw [shots]
    show Except.ok (0, { x.body with shots := [] }, h) = _
    rw [← shots]

/-- Whatever an enemy is driven by after its death, it stays silent. -/
theorem Life.Silent.drives (silent : x.Silent) (drives : Drives x y) :
    y.Silent ∧ y.calls = x.calls := by
  have stays : ∀ calls, (⟨x.script, x.body, calls⟩ : Life α).Silent := fun calls =>
    Life.silent silent.dead silent.handle silent.shots silent.finished silent.faultless
  cases drives with
  | update hu =>
      rw [silent.inert] at hu
      cases hu
      exact ⟨stays _, List.append_nil _⟩
  | integrate =>
      refine ⟨Life.silent ?_ ?_ ?_ silent.finished silent.faultless, rfl⟩
      · exact silent.dead
      · exact silent.handle
      · exact silent.shots
  | tickShots ht =>
      rw [silent.idle] at ht
      cases ht
      exact ⟨stays _, List.append_nil _⟩

theorem Life.Silent.final (silent : x.Silent) (drives : Relation.ReflTransGen Drives x y) :
    y.Silent ∧ y.calls = x.calls := by
  induction drives with
  | refl => exact ⟨silent, rfl⟩
  | tail _ last ih =>
      obtain ⟨silent', same⟩ := ih
      obtain ⟨silent'', same'⟩ := silent'.drives last
      exact ⟨silent'', same'.trans same⟩

/-- A tick that comes to an instruction to die ends there, and tells the entity nothing. -/
theorem Dies.tick {c : Cursor Kind α} {t : Pulse Kind α (Body α × η)} (reachable : c.Reachable p)
    (dies : Dies host c b h t) :
    Enemy.update host c b h = .ok (false, t.cursor.finish, die host t.state.1 t.state.2) := by
  unfold Enemy.update
  rw [if_neg (by simp [dies.unfinished]), dies.update reachable]
  rfl

/-- The call that a death makes, if the enemy has a handle. -/
def farewell (b : Body α) : List (HostCall α) :=
  b.handle.toList.map .destroy

theorem die_recorded (b : Body α) (s : η × List (HostCall α)) :
    (die host.recorded b s).2.2 = s.2 ++ farewell b := by
  unfold die farewell
  cases b.handle with
  | none => exact (List.append_nil _).symm
  | some handle => rfl

theorem farewell_destroys (b : Body α) : (farewell b).filter HostCall.destroys = farewell b := by
  unfold farewell
  cases b.handle <;> rfl

/--
**Death is final and silent.**  Suppose that an enemy, whatever has been done with it before,
comes to an instruction to die in an update of its script.  Then the update ends there, and
its last call destroys the entity of the enemy, if the enemy has a handle at that moment;
in the whole life nothing else is destroyed.  From then on, in whatever order and under
whatever hosts the enemy is driven, it is dead, without a handle and without shots, its
script is over without a fault, and no call is made for it or for its shots any more.
-/
theorem death_final (lived : Relation.ReflTransGen Drives (.ofProgram p b) x)
    {t : Pulse Kind α (Body α × η × List (HostCall α))}
    (dies : Dies host.recorded x.script x.body (h, []) t) :
    ∃ y : Life α, (∃ h', update host.recorded x.script x.body (h, []) =
        .ok (false, y.script, y.body, h', t.state.2.2 ++ farewell t.state.1)) ∧
      y.calls = x.calls ++ (t.state.2.2 ++ farewell t.state.1) ∧
      y.calls.filter HostCall.destroys = farewell t.state.1 ∧
      ∀ z, Relation.ReflTransGen Drives y z → z.Silent ∧ z.calls = y.calls := by
  obtain ⟨reachable, spared⟩ := lived_of_drives lived
  have hu := dies.tick reachable
  refine ⟨⟨t.cursor.finish, (die host.recorded t.state.1 t.state.2).1,
    x.calls ++ (t.state.2.2 ++ farewell t.state.1)⟩, ⟨?_, rfl, ?_, fun z after => ?_⟩⟩
  · refine ⟨(die host.recorded t.state.1 t.state.2).2.1, hu.trans ?_⟩
    rw [← die_recorded]
  · have before : t.state.2.2.filter HostCall.destroys = [] := by
      have kept := (spares_keepsAlive host).within (List.forall_mem_nil _) dies.within
      simpa [List.filter_eq_nil_iff] using kept
    have never : x.calls.filter HostCall.destroys = [] := by
      simpa [List.filter_eq_nil_iff] using spared dies.unfinished
    rw [List.filter_append, List.filter_append, never, before, farewell_destroys]
    rfl
  -- The death itself sets all that silence is made of, except that there has been no fault.
  · have sound := dies.within.sound (reachable.ready.sound dies.unfinished (x.body, h, []))
    exact (Life.silent rfl rfl rfl rfl sound.faultless).final after

/-- A script that raises the alarm and dies. -/
def lastAlarm : Program Kind Float32 :=
  .assemble #[Command.playSound "alarm" 1.0, Command.die] [] (by decide)

/-- An enemy with a handle, one of whose shots is still running. -/
def embattled : Body Float32 :=
  { Body.ofPosition .zero with
    handle := some ⟨7⟩
    shots := [⟨"fan", 0, .ofOrigin .zero, .ofProgram (.assemble #[.wait 3] [] (by decide))⟩] }

/-- The enemy is moved once before it dies. -/
theorem death_final_lastAlarm :
    let host := Recorder.host (.bare Float32) true
    let r := Recorder.ofChance (.scripted #[0.5] 0)
    let x : Life Float32 := ⟨.ofProgram lastAlarm, embattled.integrate, []⟩
    Relation.ReflTransGen Drives (.ofProgram lastAlarm embattled) x ∧
      (∃ t, Dies host.recorded x.script x.body (r, []) t) ∧
      ∃ y : Life Float32, y.calls = [.playSound "alarm" 1.0, .destroy ⟨7⟩] ∧
        ∀ z, Relation.ReflTransGen Drives y z → z.Silent ∧ z.calls = y.calls := by
  intro host r x
  have lived : Relation.ReflTransGen Drives (.ofProgram lastAlarm embattled) x :=
    .tail .refl .integrate
  obtain ⟨t, hstep, run, asked⟩ : ∃ t,
      (Pulse.ofCursor x.script (x.body, r, [])).step (interpreter host.recorded) = .ok (.next t) ∧
        (∃ i, t.Runs i ∧ i.kind = .die) ∧
        t.state.2.2 ++ farewell t.state.1 = [.playSound "alarm" 1.0, .destroy ⟨7⟩] :=
    ⟨_, rfl, ⟨Command.die, ⟨rfl, by decide⟩, rfl⟩, rfl⟩
  have dies : Dies host.recorded x.script x.body (r, []) t := ⟨rfl, .next .start hstep, run⟩
  obtain ⟨y, -, calls, -, silent⟩ := death_final lived dies
  exact ⟨lived, ⟨t, dies⟩, y, calls.trans asked, silent⟩

end Enemy

end Barrage
