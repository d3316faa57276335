/-
The handshake by which a bullet asks to be fired again.

The signal is a flag that the script raises and its owner clears.  Whether it has been
raised for the present instruction is remembered in the scratch, and this is dropped when
the instruction is left behind; so an instruction that is come to again, or another one
right after it, raises the flag anew.

`Flight` are the bullets with their scripts that updates and an owner lead to.  In a
flight the flag is up only while the script waits for it to be cleared, which is what
makes an update do one of three things: it enters an instruction to fire again and raises
the flag, it stays on one with no effect, or it leaves the flag alone.
-/
import Barrage.Proofs.Host.Keeps

namespace Barrage

namespace Bullet

variable {α η : Type} [Scalar α] {host : Host α η} {p : Program Kind α} {i : Instruction Kind α}
  {c c' : Cursor Kind α} {m m' : Motion α} {h h' : η} {running : Bool}
  {t t' : Pulse Kind α (Motion α × η)}

/-! ### An occurrence is a first visit

`Enters` names a point of the dispatch loop and not the flag, so that to say that the
flag is raised once for each occurrence is not to say what the flag is.
-/

/-- The script waits on an instruction to fire again. -/
structure OnRefire (c : Cursor Kind α) : Prop where
  here : ∃ i, c.program.get? c.ip = some i ∧ i.kind = .refire
  begun : c.frame ≠ 0

/-- In an update of the script, the dispatch loop comes to an instruction to fire again, for its
first visit. -/
structure Enters (host : Host α η) (c : Cursor Kind α) (m : Motion α) (h : η)
    (t : Pulse Kind α (Motion α × η)) : Prop where
  unfinished : c.finished = false
  within : (Pulse.ofCursor c (m, h)).Within (interpreter host) t
  runs : ∃ i, t.Runs i ∧ i.kind = .refire
  first : t.cursor.frame = 0

/-- A script of `p` and its bullet, as updates by any hosts and an owner leave them.  The owner may
do anything with the bullet but raise the flag. -/
inductive Flight (p : Program Kind α) : Cursor Kind α → Motion α → Prop
  | start {m : Motion α} (clear : m.refirePending = false) : Flight p (.ofProgram p) m
  | update {η : Type} {host : Host α η} {c c' : Cursor Kind α} {m m' : Motion α} {h h' : η}
      {running : Bool} (flight : Flight p c m)
      (hu : update host c m h = .ok (running, c', m', h')) : Flight p c' m'
  | owner {c : Cursor Kind α} {m m' : Motion α} (flight : Flight p c m)
      (kept : m'.refirePending = true → m.refirePending = true) : Flight p c m'

/-! ### One handler touches the flag -/

theorem act_refirePending (hact : act host i m h = .ok (m', h')) :
    m'.refirePending = m.refirePending := by
  unfold act at hact
  cases hkind : i.kind <;> simp only [hkind] at hact
  case jitter =>
    obtain ⟨drawn, -, hact⟩ := bind_eq_ok.mp hact
    cases hact
    rfl
  case aimAtPlayer =>
    cases haim : host.headingToPlayer? m.position <;> simp only [haim] at hact <;> cases hact <;>
      rfl
  all_goals
    cases hact
    rfl

/-- Every other instruction holds, and leaves the flag alone. -/
theorem tick_refirePending {frame : Int32} {fraction : α} {given left : Option (Scratch α)}
    {answer : Hold} (hkind : i.kind ≠ .refire)
    (htick : tick host i frame fraction given m = .ok (answer, left, m')) :
    m'.refirePending = m.refirePending ∧ answer = .pending := by
  unfold tick at htick
  cases hk : i.kind <;> simp only [hk] at htick
  case refire => exact absurd hk hkind
  case home =>
    cases haim : host.headingToPlayer? m.position <;> simp only [haim] at htick
    · cases htick
      exact ⟨rfl, rfl⟩
    · obtain ⟨heading, -, htick⟩ := bind_eq_ok.mp htick
      cases htick
      exact ⟨rfl, rfl⟩
  all_goals
    cases htick
    exact ⟨rfl, rfl⟩

theorem conclude_refirePending (i : Instruction Kind α) (given : Option (Scratch α))
    (m : Motion α) : (conclude i given m).refirePending = m.refirePending := by
  unfold conclude
  split <;> rfl

theorem tick_refire (hkind : i.kind = .refire) (frame : Int32) (fraction : α)
    (given : Option (Scratch α)) (m : Motion α) :
    tick host i frame fraction given m = .ok (askAgain given m) := by
  simp [tick, hkind]

/-- An instruction to fire again holds its script. -/
theorem holds_refire (hkind : i.kind = .refire) : t.Holds i :=
  Or.inl (by simp [Instruction.flow, hkind, Vocabulary.flow, Kind.flow])

/-- A step of an instruction to fire again asks and settles by the answer. -/
theorem step_refire (run : t.Runs i) (hkind : i.kind = .refire) :
    t.step (interpreter host) = .ok (Pulse.settle t.cursor.taken (askAgain t.kept t.state.1).1
      (askAgain t.kept t.state.1).2.1 ((askAgain t.kept t.state.1).2.2, t.state.2)) := by
  rw [Pulse.step_hold run (holds_refire hkind)]
  simp only [interpreter, tick_refire hkind]
  rfl

/-! ### A step raises the flag only on a first visit

A first visit holds the script, so it is the last step of its tick.  Until then every
step leaves the flag as it is, and the tick is decided by its last step.
-/

theorem step_clear (hstep : t.step (interpreter host) = .ok (.next t')) :
    t'.state.1.refirePending = t.state.1.refirePending := by
  cases Pulse.outcome_of_step hstep with
  | proceed run _ call =>
      obtain ⟨state, hact, call⟩ := bind_eq_ok.mp call
      obtain ⟨-, rfl⟩ := Prod.mk.inj (Except.ok.inj call)
      exact act_refirePending hact
  | finish run _ _ call =>
      cases call
      exact conclude_refirePending _ _ _
  | @release i _ _ run _ call =>
      obtain ⟨⟨answer, left, m'⟩, htick, call⟩ := bind_eq_ok.mp call
      cases call
      by_cases hkind : i.kind = .refire
      · rw [tick_refire hkind] at htick
        unfold askAgain at htick
        split at htick
        · cases htick
        · split at htick <;> cases htick
          rfl
      · exact absurd (tick_refirePending hkind htick).2 (by simp)
  | jump _ _ _ => rfl

/-- Until the last step of a tick, the flag is what it was. -/
theorem within_clear (hwithin : t.Within (interpreter host) t') :
    t'.state.1.refirePending = t.state.1.refirePending := by
  induction hwithin with
  | start => rfl
  | next _ hstep ih => exact (step_clear hstep).trans ih

/-- A cursor that is held on an instruction to fire again waits there, and remembers. -/
theorem onRefire_held {c : Cursor Kind α} (rests : c.Idle ∨ c.Waits)
    (hi : c.program.get? c.ip = some i) (hkind : i.kind = .refire) (left : Option (Scratch α)) :
    OnRefire (c.taken.held left) ∧
      (c.taken.held left).scratch[(c.taken.held left).ip]? = left := by
  have hold : i.flow = .yielding ∨ i.flow = .timed ∧ c.frame < i.duration :=
    Or.inl (by simp [Instruction.flow, hkind, Vocabulary.flow, Kind.flow])
  have waits := Cursor.held_waits rests hi hold left
  refine ⟨⟨⟨i, hi, hkind⟩, ?_⟩, ?_⟩
  · intro hzero
    have hframe := waits.frame
    rw [hzero] at hframe
    exact absurd hframe (by decide)
  · have hscratch := Cursor.held_scratch rests left c.ip
    rwa [if_pos rfl] at hscratch

theorem not_onRefire_of_idle (idle : c.Idle) : ¬ OnRefire c :=
  fun on => on.begun idle.frame

/-- The first visit raises the flag and does nothing else. -/
theorem step_first (sound : t.Sound) (run : t.Runs i) (hkind : i.kind = .refire)
    (first : t.cursor.frame = 0) :
    t.step (interpreter host) = .ok (.done true (t.cursor.taken.held (some .raised))
      ({ t.state.1 with refirePending := true }, t.state.2)) := by
  rw [step_refire run hkind, sound.kept_first first]
  rfl

/-- The last step of a tick either is a first visit, or leaves the flag down and does not wait for
an instruction to fire again. -/
theorem step_last {state : Motion α × η} (sound : t.Sound)
    (remembers : OnRefire t.cursor → t.kept.isSome) (clear : t.state.1.refirePending = false)
    (hstep : t.step (interpreter host) = .ok (.done running c' state)) :
    (∃ i, t.Runs i ∧ i.kind = .refire ∧ t.cursor.frame = 0) ∨
      state.1.refirePending = false ∧ ¬ OnRefire c' := by
  have out := Pulse.outcome_of_step hstep
  have settled := out.settles sound
  have passed : running = false → ¬ OnRefire c' := by
    intro hrunning
    subst hrunning
    cases settled with
    | ended _ idle => exact not_onRefire_of_idle idle
  cases out with
  | offTape _ | runaway _ _ | refused _ _ _ | stop _ _ => exact Or.inr ⟨clear, passed rfl⟩
  | halt run _ call =>
      obtain ⟨state', hact, call⟩ := bind_eq_ok.mp call
      cases call
  | @pending i left _ run hold call =>
      by_cases hkind : i.kind = .refire
      · refine Or.inl ⟨i, run, hkind, ?_⟩
        by_contra hbegun
        have on : OnRefire t.cursor := ⟨⟨i, run.here, hkind⟩, hbegun⟩
        obtain ⟨remembered, hkept⟩ := Option.isSome_iff_exists.mp (remembers on)
        rw [step_refire run hkind, hkept] at hstep
        simp [askAgain, clear, Pulse.settle] at hstep
      · obtain ⟨⟨answer, left', m'⟩, htick, call⟩ := bind_eq_ok.mp call
        cases call
        refine Or.inr ⟨(tick_refirePending hkind htick).1.trans clear, ?_⟩
        intro on
        obtain ⟨j, hj, hjkind⟩ := on.here
        have same : some i = some j := run.here.symm.trans hj
        exact hkind (Option.some.inj same ▸ hjkind)

/-! ### The flag is up only while the script waits for it

Alone the flag would not do as an invariant: what an update does next depends on whether
the script remembers that it has raised it.  `Awaits` ties the two, and both updates and
the owner keep it, the owner because the most that it may do to the flag is to clear it.
-/

/-- A script whose flag is up waits for it to be cleared, and one that waits remembers that it has
raised it. -/
structure Awaits (p : Program Kind α) (c : Cursor Kind α) (m : Motion α) : Prop where
  reachable : c.Reachable p
  waits : m.refirePending = true → OnRefire c
  remembers : OnRefire c → (c.scratch[c.ip]?).isSome

/-- An update of a script that waits begins with the instruction that it waits on. -/
theorem Awaits.runs (awaits : Awaits p c m) (on : OnRefire c) (state : Motion α × η) :
    c.finished = false ∧ (Pulse.ofCursor c state).Sound ∧
      ∃ i, (Pulse.ofCursor c state).Runs i ∧ i.kind = .refire := by
  have ready := awaits.reachable.ready
  have unfinished : c.finished = false := by
    by_contra hfinished
    exact not_onRefire_of_idle (ready.idle_of_finished (Bool.eq_true_of_not_eq_false hfinished)) on
  obtain ⟨i, hi, hkind⟩ := on.here
  refine ⟨unfinished, ready.sound unfinished state, i, ⟨hi, ?_⟩, hkind⟩
  rw [Pulse.seen_of_noVisits rfl (Program.lt_size_of_get? hi)]
  exact Pulse.one_le_visits _

/-- A script that has more is left as the dispatch loop leaves it. -/
theorem update_of_running (unfinished : c.finished = false)
    (hscript : c.update (interpreter host) (m, h) = .ok (true, c', m', h')) :
    update host c m h = .ok (true, c', m', h') := by
  unfold update
  rw [if_neg (by simp [unfinished]), hscript]
  rfl

/-- While the flag is up, an update is one step that does nothing. -/
theorem Awaits.step_stays (awaits : Awaits p c m) (raised : m.refirePending = true)
    (host : Host α η) (h : η) : ∃ c', (Pulse.ofCursor c (m, h)).step (interpreter host) =
        .ok (.done true c' (m, h)) ∧
      OnRefire c' ∧ c'.control = c.control ∧ (c'.scratch[c'.ip]?).isSome := by
  have on := awaits.waits raised
  obtain ⟨-, sound, i, run, hkind⟩ := awaits.runs on (m, h)
  obtain ⟨remembered, hkept⟩ := Option.isSome_iff_exists.mp (awaits.remembers on)
  have kept : (Pulse.ofCursor c (m, h)).kept = some remembered := hkept
  have asks : askAgain (some remembered) m = (.pending, some remembered, m) := by
    simp [askAgain, raised]
  obtain ⟨on', hscratch⟩ := onRefire_held sound.resting run.here hkind (some remembered)
  refine ⟨c.taken.held (some remembered), ?_, on', rfl, ?_⟩
  · rw [step_refire run hkind, kept, show (Pulse.ofCursor c (m, h)).state.1 = m from rfl, asks]
    rfl
  · exact Option.isSome_iff_exists.mpr ⟨remembered, hscratch⟩

theorem Awaits.stays (awaits : Awaits p c m) (raised : m.refirePending = true) (host : Host α η)
    (h : η) : ∃ c', update host c m h = .ok (true, c', m, h) ∧ OnRefire c' ∧
      c'.control = c.control ∧ (c'.scratch[c'.ip]?).isSome := by
  obtain ⟨unfinished, -⟩ := awaits.runs (awaits.waits raised) (m, h)
  obtain ⟨c', hstep, hrest⟩ := awaits.step_stays raised host h
  have hscript := awaits.reachable.update_eq unfinished (.done hstep)
  exact ⟨c', update_of_running unfinished hscript, hrest⟩

/-- Nothing is entered while the flag is up. -/
theorem Awaits.clear_of_enters (awaits : Awaits p c m) (enters : Enters host c m h t) :
    m.refirePending = false := by
  by_contra hraised
  have raised := Bool.eq_true_of_not_eq_false hraised
  obtain ⟨c', hstep, -⟩ := awaits.step_stays raised host h
  rcases enters.within.cases_start with rfl | ⟨t', hnext, -⟩
  · exact (awaits.waits raised).begun enters.first
  · rw [hstep] at hnext
    cases hnext

/-- When the flag has been cleared, an update goes on after the instruction. -/
theorem Awaits.releases (awaits : Awaits p c m) (on : OnRefire c) (clear : m.refirePending = false)
    (host : Host α η) (h : η) :
    (Pulse.ofCursor c (m, h)).step (interpreter host) =
      .ok (.next (.ofCursor c.taken.advance (m, h))) := by
  obtain ⟨-, -, i, run, hkind⟩ := awaits.runs on (m, h)
  obtain ⟨remembered, hkept⟩ := Option.isSome_iff_exists.mp (awaits.remembers on)
  have kept : (Pulse.ofCursor c (m, h)).kept = some remembered := hkept
  have asks : askAgain (some remembered) m = (.release, some remembered, m) := by
    simp [askAgain, clear]
  rw [step_refire run hkind, kept, show (Pulse.ofCursor c (m, h)).state.1 = m from rfl, asks]
  rfl

/-- The first visit of an instruction to fire again ends the update, with the flag raised. -/
theorem Enters.update (reachable : c.Reachable p) (enters : Enters host c m h t) :
    ∃ c', update host c m h = .ok (true, c', { t.state.1 with refirePending := true }, t.state.2) ∧
      OnRefire c' ∧ c'.control = t.cursor.control ∧ (c'.scratch[c'.ip]?).isSome := by
  obtain ⟨i, run, hkind⟩ := enters.runs
  have sound := enters.within.sound (reachable.ready.sound enters.unfinished (m, h))
  have hstep : t.step (interpreter host) = _ := step_first sound run hkind enters.first
  obtain ⟨n, takes⟩ := enters.within.takes (.done hstep)
  obtain ⟨on, hscratch⟩ := onRefire_held sound.resting run.here hkind (some .raised)
  refine ⟨_, update_of_running enters.unfinished (reachable.update_eq enters.unfinished takes), on,
    rfl, ?_⟩
  exact Option.isSome_iff_exists.mpr ⟨.raised, hscratch⟩

/-- An update enters one instruction to fire again at most. -/
theorem Enters.unique (reachable : c.Reachable p) (enters : Enters host c m h t)
    (enters' : Enters host c m h t') : t = t' := by
  have last : ∀ {u}, Enters host c m h u → ∀ v, u.step (interpreter host) ≠ .ok (.next v) := by
    intro u henters v hnext
    obtain ⟨i, run, hkind⟩ := henters.runs
    have sound := henters.within.sound (reachable.ready.sound henters.unfinished (m, h))
    rw [step_first sound run hkind henters.first] at hnext
    cases hnext
  exact enters.within.last_unique enters'.within (last enters) (last enters')

/-- An update that begins with the flag down enters an instruction to fire again, or leaves the flag
down and does not wait for one. -/
theorem Awaits.update_cases (awaits : Awaits p c m) (clear : m.refirePending = false)
    (hu : update host c m h = .ok (running, c', m', h')) :
    (∃ t, Enters host c m h t) ∨ m'.refirePending = false ∧ ¬ OnRefire c' := by
  obtain ⟨h₁, hscript, -⟩ := Bullet.update_cases hu
  obtain ⟨n, -, hticks⟩ := awaits.reachable.ticks (interpreter host) (m, h)
  rw [hscript] at hticks
  have ready := awaits.reachable.ready
  cases hticks with
  | finished finished =>
      exact Or.inr ⟨clear, not_onRefire_of_idle (ready.idle_of_finished finished)⟩
  | offTape _ hoff =>
      refine Or.inr ⟨clear, fun on => ?_⟩
      obtain ⟨i, hi, -⟩ := on.here
      exact absurd (Program.lt_size_of_get? hi) (Nat.not_lt.mpr hoff)
  | dispatch unfinished _ takes =>
      have sound := ready.sound unfinished (m, h)
      obtain ⟨t, within, hlast⟩ := takes.within
      have remembers : OnRefire t.cursor → t.kept.isSome := by
        intro on
        rcases within.start_or_idle sound with rfl | idle
        · exact awaits.remembers on
        · exact absurd on (not_onRefire_of_idle idle)
      have clear' : t.state.1.refirePending = false := (within_clear within).trans clear
      rcases step_last (within.sound sound) remembers clear' hlast with
        ⟨i, run, hkind, first⟩ | left
      · exact Or.inl ⟨t, unfinished, within, ⟨i, run, hkind⟩, first⟩
      · exact Or.inr left

/-- In a flight, the flag is up only while the script waits for it to be cleared. -/
theorem Flight.awaits (flight : Flight p c m) : Awaits p c m := by
  induction flight with
  | start clear =>
      refine ⟨.start, by simp [clear], fun on => ?_⟩
      exact absurd on (not_onRefire_of_idle (Cursor.ofProgram_idle p))
  | @update _ host c c' m m' h h' _ _ hu ih =>
      obtain ⟨h₁, hscript, -⟩ := Bullet.update_cases hu
      have reachable := ih.reachable.update hscript
      have waiting : OnRefire c' → (c'.scratch[c'.ip]?).isSome → Awaits p c' m' :=
        fun on remembers => ⟨reachable, fun _ => on, fun _ => remembers⟩
      by_cases raised : m.refirePending = true
      · obtain ⟨c₁, hstays, on, -, remembers⟩ := ih.stays raised host h
        rw [hu] at hstays
        cases hstays
        exact waiting on remembers
      · have clear := Bool.eq_false_of_not_eq_true raised
        rcases ih.update_cases clear hu with ⟨t, enters⟩ | ⟨clear', elsewhere⟩
        · obtain ⟨c₁, henters, on, -, remembers⟩ := enters.update ih.reachable
          rw [hu] at henters
          cases henters
          exact waiting on remembers
        · exact ⟨reachable, by simp [clear'], fun on => absurd on elsewhere⟩
  | owner _ kept ih => exact ⟨ih.reachable, fun raised => ih.waits (kept raised), ih.remembers⟩

/-! ### The handshake -/

/-- What the updates of a script of `p` do about firing again, however its owner takes part. -/
structure Handshake (p : Program Kind α) : Prop where
  /-- The first visit raises the flag, which was down, and ends the update there. -/
  raises : ∀ {η : Type} (host : Host α η) {c : Cursor Kind α} {m : Motion α} (h : η)
    {t : Pulse Kind α (Motion α × η)}, Flight p c m → Enters host c m h t →
    m.refirePending = false ∧ t.state.1.refirePending = false ∧
      ∃ c', update host c m h =
        .ok (true, c', { t.state.1 with refirePending := true }, t.state.2) ∧
        OnRefire c' ∧ c'.control = t.cursor.control
  /-- An update makes one first visit at most. -/
  once : ∀ {η : Type} (host : Host α η) {c : Cursor Kind α} {m : Motion α} (h : η)
    {t t' : Pulse Kind α (Motion α × η)}, Flight p c m → Enters host c m h t →
    Enters host c m h t' → t = t'
  /-- Nothing else raises the flag. -/
  only : ∀ {η : Type} (host : Host α η) {c c' : Cursor Kind α} {m m' : Motion α} (h h' : η)
    {running : Bool}, Flight p c m → update host c m h = .ok (running, c', m', h') →
    m.refirePending = false → m'.refirePending = true → ∃ t, Enters host c m h t
  /-- While the flag is up, the script waits on the instruction, and an update does nothing. -/
  stays : ∀ {η : Type} (host : Host α η) {c : Cursor Kind α} {m : Motion α} (h : η), Flight p c m →
    m.refirePending = true → OnRefire c ∧
      ∃ c', update host c m h = .ok (true, c', m, h) ∧ OnRefire c' ∧ c'.control = c.control
  /-- The first update that finds the flag down goes on after the instruction, with nothing
  remembered of it. -/
  releases : ∀ {η : Type} (host : Host α η) {c : Cursor Kind α} {m : Motion α} (h : η),
    Flight p c m → OnRefire c → m.refirePending = false →
    c.finished = false ∧ ∃ t, (Pulse.ofCursor c (m, h)).step (interpreter host) = .ok (.next t) ∧
      t.state = (m, h) ∧ t.cursor.Idle ∧ t.cursor.control = { c.control with ip := c.ip + 1 }

theorem handshake (p : Program Kind α) : Handshake p where
  raises := by
    intro η host c m h t flight enters
    have awaits := flight.awaits
    have clear := awaits.clear_of_enters enters
    obtain ⟨c', hu, on, hcontrol, -⟩ := enters.update awaits.reachable
    exact ⟨clear, (within_clear enters.within).trans clear, c', hu, on, hcontrol⟩
  once := by
    intro η host c m h t t' flight enters enters'
    exact enters.unique flight.awaits.reachable enters'
  only := by
    intro η host c c' m m' h h' running flight hu clear raised
    rcases flight.awaits.update_cases clear hu with enters | ⟨clear', -⟩
    · exact enters
    · rw [clear'] at raised
      cases raised
  stays := by
    intro η host c m h flight raised
    have awaits := flight.awaits
    obtain ⟨c', hu, on, hcontrol, -⟩ := awaits.stays raised host h
    exact ⟨awaits.waits raised, c', hu, on, hcontrol⟩
  releases := by
    intro η host c m h flight on clear
    have awaits := flight.awaits
    obtain ⟨unfinished, sound, -⟩ := awaits.runs on (m, h)
    exact ⟨unfinished, _, awaits.releases on clear host h, rfl,
      Cursor.taken_advance_idle sound.resting, rfl⟩

end Bullet

end Barrage
