/-
When a bullet's script tells its result to the bullet's entity.

A script ends in many ways: with an instruction, off its tape, or with one of its faults,
and each of them is a last step of the loop.  All of them have one thing in common: the
update that comes to the end is the first one that answers no, since a script answers no
just if it is over.  So the result is told once, by that update, and with the last calls
that it makes.

`Flown` are the reports of the updates that a script has been through.  Between two
updates the owner may do to the bullet what it likes, but for its handle.
-/
import Barrage.Host.Recorder
import Barrage.Proofs.Host.Record

namespace Barrage

variable {α η : Type} [Scalar α]

/-- The call tells an entity how to fly on, or where to look. -/
def HostCall.writesBack : HostCall α → Bool
  | setVelocity .. | setRotation .. => true
  | _ => false

namespace Bullet

/-- What an update has come to: its answer, the calls that it has made, in order, and the bullet as
it has left it. -/
structure Report (α : Type) [Scalar α] where
  running : Bool
  calls : List (HostCall α)
  motion : Motion α

/-- The reports of all updates of a script that runs `p`, for a bullet with a handle.  Every update
may meet another host, another world and another motion. -/
inductive Flown (p : Program Kind α) (handle : Handle) : Cursor Kind α → List (Report α) → Prop
  | start : Flown p handle (.ofProgram p) []
  | update {η : Type} {host : Host α η} {c c' : Cursor Kind α} {m m' : Motion α} {h h' : η}
      {running : Bool} {calls : List (HostCall α)} {log : List (Report α)}
      (flown : Flown p handle c log) (held : m.handle = some handle)
      (hu : update host.recorded c m (h, []) = .ok (running, c', m', h', calls)) :
      Flown p handle c' (log ++ [⟨running, calls, m'⟩])

/-- The update has left the script running and told nothing. -/
structure Report.Flies (r : Report α) : Prop where
  running : r.running = true
  silent : ∀ call ∈ r.calls, call.writesBack = false

/-- The update has ended the script and told the entity so with its last calls. -/
structure Report.Lands (handle : Handle) (r : Report α) : Prop where
  ended : r.running = false
  told : ∃ calls, (∀ call ∈ calls, HostCall.writesBack call = false) ∧
    r.calls = calls ++
      [.setVelocity handle r.motion.velocity, .setRotation handle r.motion.heading]

/-- The update has found the script over and made no call. -/
structure Report.Rests (r : Report α) : Prop where
  ended : r.running = false
  silent : r.calls = []

/-- The result is told with the report after which the script is over, and only with that one. -/
inductive WritesBack (handle : Handle) : (finished : Bool) → List (Report α) → Prop
  | flying {log : List (Report α)} (flies : ∀ r ∈ log, r.Flies) : WritesBack handle false log
  | landed {before after : List (Report α)} {last : Report α} (flies : ∀ r ∈ before, r.Flies)
      (lands : last.Lands handle) (rests : ∀ r ∈ after, r.Rests) :
      WritesBack handle true (before ++ last :: after)

variable {p : Program Kind α} {handle : Handle} {c : Cursor Kind α} {log : List (Report α)}
  {r : Report α}

theorem WritesBack.fly (told : WritesBack handle false log) (flies : r.Flies) :
    WritesBack handle false (log ++ [r]) := by
  cases told with
  | flying all =>
      exact .flying (List.forall_mem_append.mpr ⟨all, List.forall_mem_singleton.mpr flies⟩)

theorem WritesBack.land (told : WritesBack handle false log) (lands : r.Lands handle) :
    WritesBack handle true (log ++ [r]) := by
  cases told with
  | flying all => exact .landed all lands (List.forall_mem_nil _)

theorem WritesBack.rest (told : WritesBack handle true log) (rests : r.Rests) :
    WritesBack handle true (log ++ [r]) := by
  cases told with
  | landed flies lands all =>
      rw [List.append_assoc, List.cons_append]
      exact .landed flies lands
        (List.forall_mem_append.mpr ⟨all, List.forall_mem_singleton.mpr rests⟩)

theorem Flown.reachable (flown : Flown p handle c log) : c.Reachable p := by
  induction flown with
  | start => exact .start
  | update _ _ hu ih =>
      obtain ⟨h₁, hscript, -⟩ := update_cases hu
      exact .update ih hscript

/-- What a script asks of its host by its instructions tells no entity anything, and the bullet keeps
its handle. -/
theorem script_silent {host : Host α η} {c' : Cursor Kind α} {m m' : Motion α} {h h' : η}
    {calls : List (HostCall α)} {running : Bool} (reachable : c.Reachable p)
    (hscript : c.update (interpreter host.recorded) (m, h, []) = .ok (running, c', m', h', calls)) :
    m'.handle = m.handle ∧ ∀ call ∈ calls, call.writesBack = false := by
  have keeps : host.recorded.KeepsAside fun s => ∀ call ∈ s.2, call.writesBack = false :=
    Host.recorded_keepsAside (fun _ _ => rfl) (fun _ _ _ => rfl) fun _ _ => rfl
  exact (interpreter_preserves keeps p m.handle).update reachable
    ⟨rfl, List.forall_mem_nil _⟩ hscript

/-- What one update reports: it rests if the script was over, and otherwise it flies or lands as the
script is over after it or not. -/
theorem update_reports {host : Host α η} {c' : Cursor Kind α} {m m' : Motion α} {h h' : η}
    {calls : List (HostCall α)} {running : Bool} (reachable : c.Reachable p)
    (held : m.handle = some handle)
    (hu : update host.recorded c m (h, []) = .ok (running, c', m', h', calls)) :
    let r : Report α := ⟨running, calls, m'⟩
    c.finished = true ∧ c' = c ∧ r.Rests ∨
      c.finished = false ∧ (c'.finished = false ∧ r.Flies ∨ c'.finished = true ∧ r.Lands handle) := by
  intro r
  rcases update_tells hu with ⟨finished, rest⟩ | ⟨unfinished, ⟨h₁, made⟩, hscript, htold⟩
  · cases rest
    exact Or.inl ⟨finished, rfl, rfl, rfl⟩
  · obtain ⟨same, silent⟩ := script_silent reachable hscript
    refine Or.inr ⟨unfinished, ?_⟩
    cases reachable.settles hscript with
    | waits unfinished' _ _ =>
        cases htold
        exact Or.inl ⟨unfinished', rfl, silent⟩
    | ended finished' _ =>
        -- The entity that is told is the one from before the update: the handle has been kept.
        have told : calls =
            made ++ [.setVelocity handle m'.velocity, .setRotation handle m'.heading] := by
          simp only [tell, same.trans held, Bool.false_eq_true, if_false] at htold
          exact (congrArg Prod.snd htold).trans (List.append_assoc _ _ _)
        exact Or.inr ⟨finished', rfl, made, silent, told⟩

/--
**A bullet's script tells its result once.**  As long as the script is not over, every
update answers that there is more and tells the entity nothing.  The update after which
the script is over, by an instruction, off the tape or with a fault, answers that there is
no more, and its last two calls give the entity the velocity and the heading that the
bullet has at the end of it; no earlier call of it does.  All updates after that make no
call at all.
-/
theorem writes_back_once (flown : Flown p handle c log) :
    WritesBack handle c.finished log ∧ (c.fault.isSome = true → c.finished = true) := by
  constructor
  · induction flown with
    | start => exact .flying (List.forall_mem_nil _)
    | update flown held hu ih =>
        rcases update_reports flown.reachable held hu with
          ⟨finished, rfl, rests⟩ | ⟨unfinished, ⟨unfinished', flies⟩ | ⟨finished', lands⟩⟩
        · rw [finished] at ih ⊢
          exact ih.rest rests
        · rw [unfinished] at ih
          rw [unfinished']
          exact ih.fly flies
        · rw [unfinished] at ih
          rw [finished']
          exact ih.land lands
  · intro faulted
    by_contra unfinished
    have faultless := flown.reachable.ready.faultless (Bool.eq_false_of_not_eq_true unfinished)
    rw [faultless] at faulted
    cases faulted

/-- A script that sets the speed, lets a tick pass and returns from no subroutine. -/
def strayReturn : Program Kind Float32 :=
  .assemble #[Command.setSpeed 2.0, .wait 1, .ret] [] (by decide)

/-- A bullet with a handle, which its owner may turn as it likes. -/
def handled (heading : Float32) : Motion Float32 :=
  { Motion.straight .zero 1.0 heading with handle := some ⟨7⟩ }

/-- The owner turns the bullet before every update; the second of them comes to the fault. -/
theorem writes_back_once_strayReturn :
    ∃ c log, Flown strayReturn ⟨7⟩ c log ∧ c.fault = some (.returnWithoutCall 2) ∧
      log.map (·.running) = [true, false] ∧ log.map (·.calls.length) = [0, 2] ∧
      WritesBack ⟨7⟩ true log := by
  let host := Recorder.host (.bare Float32) true
  let r := Recorder.ofChance (.scripted #[0.5] 0)
  have ran : Except.toOption (do
      let (running, c, _, _, calls) ←
        update host.recorded (.ofProgram strayReturn) (handled 0.0) (r, [])
      let (running', c', _, _, calls') ← update host.recorded c (handled 90.0) (r, [])
      return (c'.fault, [running, running'], [calls.length, calls'.length])) =
    some (some (.returnWithoutCall 2), [true, false], [0, 2]) := by decide +kernel
  cases first : update host.recorded (.ofProgram strayReturn) (handled 0.0) (r, []) with
  | error e =>
      rw [first] at ran
      cases ran
  | ok left =>
      obtain ⟨running, c, m, h, calls⟩ := left
      rw [first] at ran
      cases second : update host.recorded c (handled 90.0) (r, []) with
      | error e =>
          simp only [bind, Except.bind, second] at ran
          cases ran
      | ok left =>
          obtain ⟨running', c', m', h', calls'⟩ := left
          simp only [bind, Except.bind, second] at ran
          obtain ⟨fault, answers, lengths⟩ : c'.fault = some (.returnWithoutCall 2) ∧
              [running, running'] = [true, false] ∧ [calls.length, calls'.length] = [0, 2] := by
            simpa [pure, Except.pure, Except.toOption] using ran
          have flown : Flown strayReturn ⟨7⟩ c' _ := .update (.update .start rfl first) rfl second
          obtain ⟨told, ended⟩ := writes_back_once flown
          rw [ended (by rw [fault]; rfl)] at told
          exact ⟨c', _, flown, fault, answers, lengths, told⟩

end Bullet

end Barrage
