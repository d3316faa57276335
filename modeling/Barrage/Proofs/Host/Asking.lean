/-
What one occurrence of an instruction asks of its hosts.

The hosts of the ticks of an occurrence may all be different, and between two ticks the
owner may ask them for things as well.  So no host could keep the list of what the
instruction has asked.  Instead each tick is repeated on the same host with an empty
record, which comes to the same, and the records are put together.
-/
import Barrage.Proofs.Host.Occurrence
import Barrage.Proofs.Host.Record

namespace Barrage

variable {κ α τ η : Type} [Vocabulary κ] [Scalar α]

/-- The same point of a tick, with nothing written down yet. -/
def Pulse.unheard (t : Pulse κ α (τ × η)) : Pulse κ α (τ × η × List (HostCall α)) :=
  { cursor := t.cursor, visits := t.visits, state := (t.state.1, t.state.2, []) }

namespace Steering

variable (s : Steering κ α τ)

/-- A script does the same for its actor when what it asks of the host is written down. -/
def Recordable : Prop :=
  ∀ {η : Type} (host : Host α η), (s.interpreter host.recorded).Shows (s.interpreter host) unrecorded

/-- After `k` ticks of one occurrence of `i`, which have made `calls`, the dispatch loop comes to it
once more.  The first of them has found the actor as `entry`. -/
inductive Asks (p : Program κ α) (i : Instruction κ α) (entry : τ) :
    ∀ {η : Type}, Host α η → Nat → Pulse κ α (τ × η) → List (HostCall α) → Prop
  | enter {η : Type} {host : Host α η} {t : Pulse κ α (τ × η)} (comes : s.Comes p i host t)
      (first : t.cursor.frame = 0) (found : t.state.1 = entry) : Asks p i entry host 0 t []
  | again {η η' : Type} {host : Host α η} {host' : Host α η'} {k : Nat} {t : Pulse κ α (τ × η)}
      {c : Cursor κ α} {x₁ x : τ} {h₁ : η} {h : η'} {calls asked : List (HostCall α)}
      (before : Asks p i entry host k t calls)
      (hstep : t.unheard.step (s.interpreter host.recorded) = .ok (.done true c (x₁, h₁, asked)))
      (comes : s.Comes p i host' (.ofCursor c (x, h))) :
      Asks p i entry host' (k + 1) (.ofCursor c (x, h)) (calls ++ asked)

variable {s} {p : Program κ α} {i : Instruction κ α} {host : Host α η} {entry : τ} {k : Nat}
  {t : Pulse κ α (τ × η)} {calls : List (HostCall α)} {c : Cursor κ α}

/-- What is written down changes nothing else. -/
theorem Recordable.step (records : s.Recordable) (host : Host α η) (t : Pulse κ α (τ × η)) :
    t.step (s.interpreter host) =
      Step.view unrecorded <$> t.unheard.step (s.interpreter host.recorded) :=
  Pulse.step_view (records host) t.unheard

theorem Recordable.step_eq_done (records : s.Recordable) {running : Bool} {c : Cursor κ α} {x : τ}
    {h : η} : t.step (s.interpreter host) = .ok (.done running c (x, h)) ↔
      ∃ asked, t.unheard.step (s.interpreter host.recorded) = .ok (.done running c (x, h, asked)) := by
  rw [records.step, map_eq_ok]
  constructor
  · rintro ⟨r, hrecorded, hview⟩
    cases r with
    | next _ => cases hview
    | done running c state =>
        obtain ⟨x, h, asked⟩ := state
        cases hview
        exact ⟨asked, hrecorded⟩
  · rintro ⟨asked, hrecorded⟩
    exact ⟨_, hrecorded, rfl⟩

theorem Asks.comes (asks : s.Asks p i entry host k t calls) : s.Comes p i host t := by
  cases asks <;> assumption

theorem Asks.occurs (records : s.Recordable) (asks : s.Asks p i entry host k t calls) :
    s.Occurs p i entry host k t := by
  induction asks with
  | enter comes first found => exact .enter comes first found
  | again _ hstep comes ih => exact .again ih (records.step_eq_done.mpr ⟨_, hstep⟩) comes

/-- What the ticks of an occurrence have asked can be listed. -/
theorem Occurs.asks (records : s.Recordable) (occurs : s.Occurs p i entry host k t) :
    ∃ calls, s.Asks p i entry host k t calls := by
  induction occurs with
  | enter comes first found => exact ⟨[], .enter comes first found⟩
  | again _ hstep comes ih =>
      obtain ⟨calls, asks⟩ := ih
      obtain ⟨asked, hrecorded⟩ := records.step_eq_done.mp hstep
      exact ⟨calls ++ asked, .again asks hrecorded comes⟩

/-- A script that remembers something comes back to what it remembers it for. -/
theorem Leads.comes (led : s.Leads p c) {a : Nat} {value : Scratch α}
    (kept : c.scratch[a]? = some value) : a = c.ip ∧ c.frame ≠ 0 ∧
      ∃ (i : Instruction κ α) (η : Type) (host : Host α η) (x : τ) (h : η),
        s.Comes p i host (.ofCursor c (x, h)) := by
  have awake : ¬ c.Idle := fun idle => by simp [idle.scratch a] at kept
  have unfinished : c.finished = false := by
    by_contra finished
    exact awake (led.reachable.ready.idle_of_finished (Bool.eq_true_of_not_eq_false finished))
  have waits : c.Waits := led.reachable.ready.rests.resolve_left awake
  refine ⟨?_, fun hzero => absurd (hzero ▸ waits.frame) (by decide), ?_⟩
  · by_contra elsewhere
    simp [waits.scratch a elsewhere] at kept
  · cases led with
    | start => exact absurd (Cursor.ofProgram_idle p) awake
    | @tick η host c₀ _ x₀ x h₀ h running led₀ hu =>
        obtain ⟨unfinished₀, rfl⟩ := led₀.suspended hu unfinished
        obtain ⟨t, h₁, hwithin, hlast⟩ := led₀.last unfinished₀ hu
        cases Pulse.outcome_of_step hlast with
        | @pending i _ _ run _ _ =>
            exact ⟨i, η, host, x, h, .tick led₀ hu, unfinished, .start, run.again hlast _⟩

end Steering

theorem Enemy.recordable : (steering : Steering Kind α (Body α)).Recordable :=
  interpreter_recorded

end Barrage
