/-
Every name that a script uses on a stage is found, if nothing is wrong with the catalog.

The scripts that a tick runs are closed, so no call misses its label, and at every point
of a tick the instruction that runs is one of a closed program.  The library has what
such an instruction names, and it is the program of the first pattern of the catalog that
can be found under this name.
-/
import Barrage.Proofs.Stage.Closed

namespace Barrage

/-! ### Single instructions

What is shown is the step itself, at any point of a tick.  Where the name of a shot is
found the shot is started, and a bullet that is asked for carries the program of the
motion that is attached.
-/

/-- An enemy that runs an instruction to fire starts the shot. -/
theorem Enemy.fire_starts {α η : Type} [Scalar α] {host : Host α η}
    {t : Pulse Enemy.Kind α (Enemy.Body α × η)} {i : Instruction Enemy.Kind α} (run : t.Runs i)
    (hkind : i.kind = .fire) {script : Cursor Shot.Kind α}
    (hname : host.library.shots.cursor? i.label = some script) :
    ∃ t', t.step (interpreter host) = .ok (.next t') ∧
      t'.state = ({ t.state.1 with
        shots := t.state.1.shots ++ [started i t.state.1 script] }, t.state.2) := by
  have hf : i.flow = .instant := by
    rw [Instruction.flow, hkind]
    rfl
  refine Pulse.step_proceed run hf ?_
  show Except.ok (act host i t.state.1 t.state.2) = _
  unfold act startShot
  simp only [hkind, hname]
  rfl

/-- Every bullet that a step of a shot asks for carries the motion that is attached. -/
theorem Shot.step_carries {setting : Setting Float32}
    {t : Pulse Shot.Kind Float32 (Shot.Emitter Float32 × Stage.World)}
    {r : Step Shot.Kind Float32 (Shot.Emitter Float32 × Stage.World)}
    (hstep : t.step (interpreter (Stage.World.host setting)) = .ok r) :
    ∃ launched, r.state.2.store.queued = t.state.2.store.queued ++ launched ∧
      ∀ asked ∈ launched, Carries setting.library t.state.1.motion asked.2 := by
  have keeps := Stage.World.host_keeps setting (L := Carries setting.library t.state.1.motion)
    (Q := fun queue => ∃ launched, queue = t.state.2.store.queued ++ launched ∧
      ∀ asked ∈ launched, Carries setting.library t.state.1.motion asked.2) (by
    intro queue handle launch hl hqueue
    obtain ⟨launched, rfl, hlaunched⟩ := hqueue
    refine ⟨launched.push (handle, launch), Array.push_append, ?_⟩
    intro asked hmem
    rcases Array.mem_push.mp hmem with hmem | rfl
    · exact hlaunched asked hmem
    · exact hl)
  have launching := keeps.launching
    fun launch (launched : Launched setting t.state.1.motion launch) => launched.carries
  exact step_keeps launching ⟨#[], Array.append_empty.symm, by simp⟩ hstep


/-! ### All names

In a tick there are three kinds of names in use, and each has its field.  The name of a
motion is used in another instruction than the one that gives it, so that field is about
what a shot has attached.
-/

/-- In the tick that begins at `s`, every name that a script uses is found in the catalog. -/
structure Stage.NamesFound (c : Catalog Float32) (s : Stage) : Prop where
  /-- No script is stopped at a call whose label is not there. -/
  labels : ∀ actor w report actor' w', s.Turn actor w →
    actor.update s.host w = .ok (report, actor', w') → ¬ actor'.MissesLabel
  /-- Every instruction to fire that the enemy runs starts the shot of that name. -/
  shots : ∀ script body w t i, s.Turn (.enemy script body) w →
    (Pulse.ofCursor script (body, w)).Within (Enemy.interpreter s.host) t →
    t.Runs i → i.kind = .fire →
    ∃ pattern t', c.shots.find? (·.provides i.label) = some pattern ∧
      t.step (Enemy.interpreter s.host) = .ok (.next t') ∧
      t'.state = ({ t.state.1 with
        shots := t.state.1.shots ++ [Enemy.started i t.state.1 (.ofProgram pattern.program)] },
        t.state.2)
  /-- Every bullet that a shot asks for while a motion is attached runs the program of that
  name. -/
  motions : ∀ script emitter w t r name, s.Turn (.shot script emitter) w →
    (Pulse.ofCursor script (emitter, w)).Within (Shot.interpreter s.host) t →
    t.step (Shot.interpreter s.host) = .ok r → t.state.1.motion = some name →
    ∃ pattern launched, c.bullets.find? (·.provides name) = some pattern ∧
      r.state.2.store.queued = t.state.2.store.queued ++ launched ∧
      ∀ asked ∈ launched, asked.2.script = some (.ofProgram pattern.program)

namespace Catalog

open Stage

variable {c : Catalog Float32} {s : Stage}

/-- A name that the registry contains is that of a pattern, whose program it stands for. -/
theorem cursor?_of_contains {κ : Type} [Vocabulary κ] {patterns : List (Pattern κ Float32)}
    {name : String} (h : (registryOf patterns).contains name = true) :
    ∃ pattern, patterns.find? (·.provides name) = some pattern ∧
      (registryOf patterns).cursor? name = some (.ofProgram pattern.program) := by
  rw [Registry.contains_eq, get?_registryOf, Option.isSome_map, Option.isSome_iff_exists] at h
  obtain ⟨pattern, hfind⟩ := h
  refine ⟨pattern, hfind, ?_⟩
  rw [Registry.cursor?, get?_registryOf, hfind]
  rfl

theorem namesFound (closed : c.install.Closed) (h : s.ClosedIn c.install) : s.NamesFound c where
  labels := by
    intro actor w report actor' w' turn hupdate
    exact (turn.closedIn closed h).1.update hupdate
  shots := by
    intro script body w t i turn within run hkind
    obtain ⟨⟨⟨p, reachable, hp⟩, -⟩, -⟩ := turn.closedIn closed h
    have hmem := run.mem_code
    rw [within.program, Pulse.ofCursor, reachable.canReach.1] at hmem
    obtain ⟨pattern, hfind, hname⟩ := cursor?_of_contains (hp.shots i hmem hkind)
    have hlibrary : s.host.library.shots.cursor? i.label = some (.ofProgram pattern.program) := by
      show s.setting.library.shots.cursor? i.label = _
      rw [h.same]
      exact hname
    obtain ⟨t', hstep, hstate⟩ := Enemy.fire_starts run hkind hlibrary
    exact ⟨pattern, t', hfind, hstep, hstate⟩
  motions := by
    intro script emitter w t r name turn within hstep hmotion
    obtain ⟨⟨⟨p, reachable, hp⟩, hmotions⟩, hw⟩ := turn.closedIn closed h
    obtain ⟨hknown, -⟩ := (shot_preserves (h.same ▸ closed) (h.same.symm ▸ hp)).within
      reachable.canReach.1 ⟨h.same.symm ▸ hmotions, hw⟩ within
    rw [h.same] at hknown
    obtain ⟨pattern, hfind, hname⟩ := cursor?_of_contains (hknown name hmotion)
    obtain ⟨launched, hqueued, hcarry⟩ := Shot.step_carries hstep
    refine ⟨pattern, launched, hfind, hqueued, ?_⟩
    intro asked hmem
    rw [hcarry asked hmem, h.same, hmotion]
    exact hname

/--
**Where the check finds nothing, every name is found.**  A script is only ever stopped for
an unknown subroutine at a call that the check has a finding about.  And on a stage over
the library of a catalog in which no problem is found, whichever enemy enters and for as
many ticks as it may take, every label, every shot and every motion is found.
-/
theorem names_found :
    (∀ {κ α : Type} [Vocabulary κ] [Scalar α] (p : Program κ α) (script : Cursor κ α)
      (position : Nat) (label : String), script.Reachable p →
      script.fault = some (.unknownSubroutine position label) →
      (if label = "" then .missingLabel position else .unknownLabel position label) ∈ p.check) ∧
    (∀ (c : Catalog Float32) (setting : Setting Float32) (seed : UInt64) (enemy : String)
      (entered s : Stage), c.problems = [] → setting.library = c.install →
      ofEnemy? setting seed enemy = some entered → entered.Reaches s → s.NamesFound c) := by
  constructor
  · intro κ α _ _ p script position label reachable hfault
    obtain ⟨i, hi, hf, rfl, undeclared⟩ := reachable.undeclared hfault
    exact Program.undeclared_mem_check hi hf undeclared
  · intro c setting seed enemy entered s clean installed henters hreaches
    have closed := install_closed clean
    have hentered := closedIn_of_ofEnemy? (installed ▸ closed) henters
    rw [installed] at hentered
    exact namesFound closed (hreaches.closedIn closed hentered)

/-- An enemy whose shot fires a bullet with a script. -/
def courier : Catalog Float32 where
  bullets := [.ofInstructions "drift" "Turns slowly" [Bullet.Command.rotate 3.0 60]]
  shots := [.ofInstructions "aimed" "One bullet that drifts"
    [Shot.Command.attachMotion "drift", Shot.Command.fire 2.0]]
  enemies := [.ofInstructions "guard" "Fires and waits" [Enemy.Command.fire "aimed" 0, .wait 30]]

def courierSetting : Setting Float32 where
  library := courier.install
  sprite? _ _ := some ⟨"orb", 4.0⟩
  path? _ := none
  player := none

theorem names_found_courier : courier.problems = [] ∧ ∃ entered body,
    ofEnemy? courierSetting 7 "guard" = some entered ∧ entered.enemy = some body ∧
      body.shots = [] ∧ ∃ t', (Pulse.ofCursor entered.script (body, entered.world)).step
        (Enemy.interpreter entered.host) = .ok (.next t') ∧
          t'.state.1.shots.map (·.name) = ["aimed"] := by
  have clean : courier.problems = [] := by rfl
  refine ⟨clean, _, _, rfl, rfl, rfl, ?_⟩
  have found := names_found.2 courier courierSetting 7 "guard" _ _ clean rfl rfl .start
  obtain ⟨pattern, t', -, hstep, hstate⟩ := found.shots _ _ _ _ (Enemy.Command.fire "aimed" 0)
    (.enemy rfl) .start ⟨rfl, by decide⟩ rfl
  refine ⟨t', hstep, ?_⟩
  rw [hstate]
  rfl

end Catalog

end Barrage
