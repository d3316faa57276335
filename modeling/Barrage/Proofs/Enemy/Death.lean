/-
When an enemy dies.

The instruction to die ends the script at once, so it is the last thing that an update
comes to.  What all other instructions keep, timed or not, is therefore kept up to that
point, which is `KeepsAlive`; and none of them touches the life of the enemy.  So an
enemy is dead after an update just if the update has come to such an instruction, and it
is left with the drops of that moment.
-/
import Barrage.Proofs.Host.Keeps

namespace Barrage.Enemy

variable {α η : Type} [Scalar α] {host : Host α η} {p : Program Kind α} {i : Instruction Kind α}
  {c c' : Cursor Kind α} {b b' : Body α} {h h' : η} {running : Bool}
  {t t' : Pulse Kind α (Body α × η)} {r : Step Kind α (Body α × η)}

/-- In an update of the script, the dispatch loop comes to an instruction to die. -/
structure Dies (host : Host α η) (c : Cursor Kind α) (b : Body α) (h : η)
    (t : Pulse Kind α (Body α × η)) : Prop where
  unfinished : c.finished = false
  within : (Pulse.ofCursor c (b, h)).Within (interpreter host) t
  runs : ∃ i, t.Runs i ∧ i.kind = .die

theorem step_die (run : t.Runs i) (hkind : i.kind = .die) :
    t.step (interpreter host) =
      .ok (.done false t.cursor.finish (die host t.state.1 t.state.2)) := by
  rw [Pulse.step_instant run (by simp [Instruction.flow, hkind, Vocabulary.flow, Kind.flow])]
  simp only [interpreter, act, hkind]
  rfl

theorem act_dead (hkind : i.kind ≠ .die) : (act host i b h).2.1.dead = b.dead := by
  unfold act
  cases hk : i.kind
  case die => exact absurd hk hkind
  case fire =>
    simp only [startShot]
    split <;> rfl
  all_goals rfl

/-- All instructions but the one to die keep `P`. -/
structure KeepsAlive (host : Host α η) (P : Body α × η → Prop) : Prop where
  instant : ∀ i b h, i.kind ≠ .die → P (b, h) → P (act host i b h).2
  timed : ∀ i phase given state answer left state', P state →
    (interpreter host).timed i phase given state = .ok (answer, left, state') → P state'

/-- No instruction but the one to die touches the life of the enemy. -/
theorem dead_keepsAlive (host : Host α η) (dead : Bool) :
    KeepsAlive host fun state => state.1.dead = dead where
  instant _ _ _ hkind h := (act_dead hkind).trans h
  timed := by
    intro i phase given state answer left state' h call
    obtain ⟨position, angle, hbody⟩ := timed_moves call
    exact ((congrArg Body.dead hbody).trans rfl).trans h

section KeepsAlive

variable {P : Body α × η → Prop}

/-- A step keeps what is kept, unless the enemy dies. -/
theorem KeepsAlive.step (keeps : KeepsAlive host P) (h : P t.state)
    (hstep : t.step (interpreter host) = .ok r) :
    P r.state ∨ ∃ i, t.Runs i ∧ i.kind = .die := by
  rcases (Pulse.outcome_of_step hstep).state_cases with
    same | ⟨i, run, ⟨signal, call⟩ | ⟨phase, answer, left, call⟩⟩
  · exact Or.inl (same ▸ h)
  · by_cases hkind : i.kind = .die
    · exact Or.inr ⟨i, run, hkind⟩
    · have kept := keeps.instant i t.state.1 t.state.2 hkind h
      rw [show act host i t.state.1 t.state.2 = (signal, r.state) from Except.ok.inj call] at kept
      exact Or.inl kept
  · exact Or.inl (keeps.timed i phase _ _ _ _ _ h call)

/-- It is kept as long as a tick goes on. -/
theorem KeepsAlive.within (keeps : KeepsAlive host P) (h : P t.state)
    (hwithin : t.Within (interpreter host) t') : P t'.state := by
  induction hwithin with
  | start => exact h
  | next _ hstep ih =>
      rcases keeps.step ih hstep with kept | ⟨i, run, hkind⟩
      · exact kept
      · rw [step_die run hkind] at hstep
        cases hstep

end KeepsAlive

/-- An update that comes to an instruction to die ends there. -/
theorem Dies.update (reachable : c.Reachable p) (dies : Dies host c b h t) :
    c.update (interpreter host) (b, h) =
      .ok (false, t.cursor.finish, die host t.state.1 t.state.2) := by
  obtain ⟨i, run, hkind⟩ := dies.runs
  obtain ⟨n, takes⟩ := dies.within.takes (.done (step_die run hkind))
  exact reachable.update_eq dies.unfinished takes

/-- **A death has one cause.**  A living enemy is dead after an update just if the update has come
to an instruction to die, and then it has the drops that it had there. -/
theorem update_dead_iff (reachable : c.Reachable p) (alive : b.dead = false)
    (hu : update host c b h = .ok (running, c', b', h')) :
    (b'.dead = true ↔ ∃ t, Dies host c b h t) ∧
      ∀ t, Dies host c b h t → b'.drops = t.state.1.drops := by
  have dead : ∀ t, Dies host c b h t → b'.dead = true ∧ b'.drops = t.state.1.drops := by
    intro t dies
    obtain ⟨h₁, hscript, -⟩ := update_cases hu
    rw [dies.update reachable] at hscript
    cases hscript
    exact ⟨rfl, rfl⟩
  refine ⟨⟨fun hdead => ?_, fun ⟨t, dies⟩ => (dead t dies).1⟩, fun t dies => (dead t dies).2⟩
  obtain ⟨h₁, hscript, -⟩ := update_cases hu
  by_cases hfinished : c.finished = true
  · rw [Cursor.update_finished hfinished] at hscript
    cases hscript
    rw [alive] at hdead
    cases hdead
  · have unfinished := Bool.eq_false_of_not_eq_true hfinished
    obtain ⟨n, takes⟩ := reachable.takes unfinished (interpreter host) (b, h)
    rw [hscript] at takes
    obtain ⟨t, hwithin, hlast⟩ := takes.within
    have keeps := dead_keepsAlive host false
    rcases keeps.step (keeps.within alive hwithin) hlast with lives | cause
    · exact absurd (hdead.symm.trans lives) (by simp)
    · exact ⟨t, unfinished, hwithin, cause⟩

end Barrage.Enemy
