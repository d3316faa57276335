/-
A tick as a loop, and what ticks can lead to.

`Pulse.run` recurses on a bound.  `Pulse.Takes` is the loop as it is meant, without
one: it says in how many rounds a tick ends and with what.  The two agree as soon as
the bound is large enough, which is `run_of_takes`; that it always is large enough is a
theorem about control, in `Proofs/Script/Termination.lean`.

`Cursor.Reachable` are the cursors that updates lead to from the start of a program.
Every update may have an interpreter of its own and a state of its own, so whatever the
owner of a script does between two ticks is covered.
-/
import Barrage.Proofs.Script.Step

namespace Barrage

variable {κ α σ : Type} [Vocabulary κ] [Scalar α]

/-! ### The bound makes no difference where it is large enough -/

/-- From `t` on, the dispatch loop takes `n` rounds and the tick ends with `o`. -/
inductive Pulse.Takes (I : Interpreter κ α σ) :
    Nat → Pulse κ α σ → Except Crash (Bool × Cursor κ α × σ) → Prop
  | crash {t : Pulse κ α σ} {e : Crash} (h : t.step I = .error e) : Takes I 1 t (.error e)
  | done {t : Pulse κ α σ} {running : Bool} {cursor : Cursor κ α} {state : σ}
      (h : t.step I = .ok (.done running cursor state)) : Takes I 1 t (.ok (running, cursor, state))
  | next {n : Nat} {t t' : Pulse κ α σ} {o : Except Crash (Bool × Cursor κ α × σ)}
      (h : t.step I = .ok (.next t')) (rest : Takes I n t' o) : Takes I (n + 1) t o

namespace Pulse

variable {I : Interpreter κ α σ}

/-- A tick that goes on after a step is the rest of it. -/
theorem Takes.rest {n : Nat} {t t' : Pulse κ α σ} {o : Except Crash (Bool × Cursor κ α × σ)}
    (h : Takes I n t o) (hstep : t.step I = .ok (.next t')) : ∃ m, n = m + 1 ∧ Takes I m t' o := by
  cases h with
  | crash h => exact absurd (hstep.symm.trans h) (by simp)
  | done h => exact absurd (hstep.symm.trans h) (by simp)
  | next h rest =>
      rw [hstep, Except.ok.injEq, Step.next.injEq] at h
      exact ⟨_, rfl, h ▸ rest⟩

/-- A tick ends in one way only. -/
theorem Takes.unique {n m : Nat} {t : Pulse κ α σ} {o o' : Except Crash (Bool × Cursor κ α × σ)}
    (h : Takes I n t o) (h' : Takes I m t o') : n = m ∧ o = o' := by
  induction h generalizing m with
  | crash h =>
      cases h' with
      | crash h' =>
          rw [h, Except.error.injEq] at h'
          exact ⟨rfl, by rw [h']⟩
      | done h' => exact absurd (h.symm.trans h') (by simp)
      | next h' _ => exact absurd (h.symm.trans h') (by simp)
  | done h =>
      cases h' with
      | crash h' => exact absurd (h.symm.trans h') (by simp)
      | done h' =>
          rw [h, Except.ok.injEq, Step.done.injEq] at h'
          obtain ⟨rfl, rfl, rfl⟩ := h'
          exact ⟨rfl, rfl⟩
      | next h' _ => exact absurd (h.symm.trans h') (by simp)
  | next h _ ih =>
      obtain ⟨k, rfl, rest'⟩ := h'.rest h
      obtain ⟨rfl, rfl⟩ := ih rest'
      exact ⟨rfl, rfl⟩

theorem run_error {t : Pulse κ α σ} {e : Crash} (h : t.step I = .error e) (fuel : Nat) :
    t.run I (fuel + 1) = .error e := by
  simp only [run, h]
  rfl

theorem run_done {t : Pulse κ α σ} {running : Bool} {c : Cursor κ α} {state : σ}
    (h : t.step I = .ok (.done running c state)) (fuel : Nat) :
    t.run I (fuel + 1) = .ok (running, c, state) := by
  simp only [run, h]
  rfl

theorem run_next {t t' : Pulse κ α σ} (h : t.step I = .ok (.next t')) (fuel : Nat) :
    t.run I (fuel + 1) = t'.run I fuel := by
  simp only [run, h]
  rfl

/-- A bound that is large enough makes no difference. -/
theorem run_of_takes {n : Nat} {t : Pulse κ α σ} {o : Except Crash (Bool × Cursor κ α × σ)}
    (h : Takes I n t o) : ∀ {fuel : Nat}, n ≤ fuel → t.run I fuel = o := by
  induction h with
  | crash h =>
      intro fuel hfuel
      obtain ⟨fuel, rfl⟩ := Nat.exists_eq_add_of_le' hfuel
      exact run_error h fuel
  | done h =>
      intro fuel hfuel
      obtain ⟨fuel, rfl⟩ := Nat.exists_eq_add_of_le' hfuel
      exact run_done h fuel
  | @next n _ _ _ h _ ih =>
      intro fuel hfuel
      obtain ⟨fuel, rfl⟩ := Nat.exists_eq_add_of_le' hfuel
      rw [← Nat.add_assoc, run_next h]
      exact ih (Nat.le_add_left n fuel)

/-- What all steps of a tick preserve holds of the pulse that its last step starts from. -/
theorem Takes.last {P : Pulse κ α σ → Prop}
    (hstep : ∀ t t', P t → t.step I = .ok (.next t') → P t') {n : Nat} {t : Pulse κ α σ}
    {o : Except Crash (Bool × Cursor κ α × σ)} (h : Takes I n t o) (ht : P t) {running : Bool}
    {c : Cursor κ α} {state : σ} (ho : o = .ok (running, c, state)) :
    ∃ t', P t' ∧ t'.step I = .ok (.done running c state) := by
  induction h with
  | crash _ => exact absurd ho (by simp)
  | done h =>
      cases ho
      exact ⟨_, ht, h⟩
  | next h _ ih => exact ih (hstep _ _ ht h) ho

end Pulse

/-! ### Updates keep control among the states of the program

The bound of the loop does not come into this either: every point of a tick is a state
that the program can come to, so it does not matter at which of them the tick stops.
-/

/-- The cursors that updates lead to from the start of a program. -/
inductive Cursor.Reachable (p : Program κ α) : Cursor κ α → Prop
  | start : Reachable p (ofProgram p)
  | update {σ : Type} {c c' : Cursor κ α} {I : Interpreter κ α σ} {state state' : σ}
      {running : Bool} (h : Reachable p c) (hu : c.update I state = .ok (running, c', state')) :
      Reachable p c'

/-- Control stays among the states that the program can come to, however far a tick is run. -/
theorem Pulse.run_canReach {I : Interpreter κ α σ} {p : Program κ α} :
    ∀ {fuel : Nat} {t : Pulse κ α σ} {running : Bool} {c : Cursor κ α} {state : σ},
      t.cursor.program = p → p.CanReach t.cursor.control →
      t.run I fuel = .ok (running, c, state) → c.program = p ∧ p.CanReach c.control := by
  intro fuel
  induction fuel with
  | zero =>
      intro t running c state hp hreach h
      simp only [run, Except.ok.injEq, Prod.mk.injEq] at h
      obtain ⟨-, rfl, -⟩ := h
      exact ⟨hp, hreach⟩
  | succ fuel ih =>
      intro t running c state hp hreach h
      rcases hstep : t.step I with e | ⟨t' | ⟨running', c', state'⟩⟩
      · rw [run_error hstep] at h
        exact absurd h (by simp)
      · rw [run_next hstep] at h
        obtain ⟨hsame, hnext, hfits⟩ := (outcome_of_step hstep).leads
        rw [hp] at hnext
        exact ih (hsame.trans hp) (.next hreach hnext (hfits hreach.fits)) h
      · rw [run_done hstep, Except.ok.injEq, Prod.mk.injEq, Prod.mk.injEq] at h
        obtain ⟨-, rfl, -⟩ := h
        obtain ⟨hsame, hstay⟩ := (outcome_of_step hstep).stays
        exact ⟨hsame.trans hp, by rw [hstay]; exact hreach⟩

/-- Every reachable cursor runs its program and is where control can be. -/
theorem Cursor.Reachable.canReach {p : Program κ α} {c : Cursor κ α} (h : Reachable p c) :
    c.program = p ∧ p.CanReach c.control := by
  induction h with
  | start => exact ⟨rfl, .start⟩
  | update _ hu ih =>
      obtain ⟨hp, hreach⟩ := ih
      unfold Cursor.update at hu
      split at hu
      · cases hu
        exact ⟨hp, hreach⟩
      · split at hu
        · cases hu
          exact ⟨hp, hreach⟩
        · exact Pulse.run_canReach hp hreach hu

end Barrage
