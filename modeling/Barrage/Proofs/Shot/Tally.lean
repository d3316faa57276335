/-
The bullets that an emitter counts.

The total of an emitter goes up with every bullet that the host accepts, and with nothing
else.  So after any number of instructions it is the number of calls in the record that
were answered with a handle.
-/
import Barrage.Proofs.Shot.Volley

namespace Barrage

variable {α η : Type} [Scalar α]

/-- The call has asked for a bullet, which was accepted. -/
def HostCall.accepted : HostCall α → Bool
  | spawnBullet _ answer => answer.isSome
  | _ => false

namespace Shot

variable {host : Host α η} {i : Instruction Kind α} {e e' : Emitter α}
  {s s' : η × List (HostCall α)} {calls : List (HostCall α)}

theorem accepted_answers {launches : List (Bullet.Launch α)} {answers : List (Option Handle)}
    (each : answers.length = launches.length) :
    (List.zipWith HostCall.spawnBullet launches answers).countP HostCall.accepted =
      answers.countP (·.isSome) := by
  induction launches generalizing answers with
  | nil =>
      rw [List.eq_nil_of_length_eq_zero each]
      rfl
  | cons launch rest ih =>
      cases answers with
      | nil => cases each
      | cons answer others =>
          rw [List.zipWith_cons_cons, List.countP_cons, List.countP_cons, ih (Nat.succ.inj each)]
          rfl

/-- No draw is for a bullet. -/
theorem Volley.accepted {rounds : List (Round α)} (volley : Volley i e calls rounds) :
    calls.countP HostCall.accepted = 0 := by
  cases volley with
  | random _ _ =>
      refine List.countP_eq_zero.mpr fun call hcall => ?_
      obtain ⟨x, -, rfl⟩ := List.mem_map.mp hcall
      exact Bool.false_ne_true
  | _ => rfl

theorem Strays.accepted {deviation : α} (strays : Strays e calls deviation) :
    calls.countP HostCall.accepted = 0 := by
  cases strays <;> rfl

/-- An instruction that fires counts the bullets that are accepted. -/
theorem Fires.tallies {setting : Setting α} (fires : Fires setting i e calls e') :
    e'.fired = e.fired + calls.countP HostCall.accepted := by
  cases fires with
  | intro volley _ stray _ answered =>
      rw [List.countP_append, List.countP_append, volley.accepted, stray.accepted,
        accepted_answers answered]
      simp

/-- So does one that does not fire. -/
theorem Quiet.tallies (quiet : Quiet i e calls e') :
    e'.fired = e.fired + calls.countP HostCall.accepted := by
  rw [quiet.fired, quiet.calls]
  split <;> rfl

/-- The total keeps its distance from the number of bullets accepted. -/
theorem interpreter_tallies (inPlace : host.ShufflesInPlace) (p : Program Kind α) (n : Nat) :
    (interpreter host.recorded).Preserves p fun state =>
      state.1.fired = n + state.2.2.countP HostCall.accepted where
  instant := by
    rintro i - ⟨e, s⟩ signal ⟨e', s'⟩ h hcall
    obtain ⟨state, hact, hcall⟩ := bind_eq_ok.mp hcall
    cases hcall
    obtain ⟨calls, hcalls, does⟩ := act_recorded inPlace hact
    have tallies : e'.fired = e.fired + calls.countP HostCall.accepted := by
      rcases does with ⟨-, fires⟩ | ⟨-, quiet⟩
      · exact fires.tallies
      · exact quiet.tallies
    show e'.fired = n + s'.2.countP HostCall.accepted
    rw [tallies, hcalls, List.countP_append, show e.fired = _ from h, Nat.add_assoc]
  timed := by
    intro i _ phase given state answer left state' h hcall
    obtain ⟨baseAngle, rfl⟩ := timed_turns hcall
    exact h

/-- In a tick, the total of an emitter grows by the number of bullets accepted. -/
theorem update_tallies (inPlace : host.ShufflesInPlace) {script script' : Cursor Kind α}
    {p : Program Kind α} {running : Bool} {h h' : η} (reachable : script.Reachable p)
    (hu : update host.recorded script e (h, []) = .ok (running, script', e', h', calls)) :
    e'.fired = e.fired + calls.countP HostCall.accepted :=
  (interpreter_tallies inPlace p e.fired).update reachable rfl hu

end Shot

end Barrage
