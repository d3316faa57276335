/-
A script that the static check finds no fault with never misses a label.

A script is stopped for an unknown subroutine at a call whose label is not declared,
and for such a call the check has a finding.  So where it has none, every label that is
called is there.
-/
import Barrage.Proofs.Script.Fault
import Barrage.Proofs.Script.Preserve
import Barrage.Script.Check

namespace Barrage

variable {κ α : Type} [Vocabulary κ] [Scalar α]

namespace Program

variable {p : Program κ α} {i : Instruction κ α} {a : Nat}

/-- Every label that is called is declared. -/
def CallsDeclared (p : Program κ α) : Prop :=
  ∀ i ∈ p.code, i.flow = .call → (p.position? i.label).isSome

theorem callFinding_mem_check {f : Finding} (hi : p.get? a = some i)
    (h : p.callFinding? i a = some f) : f ∈ p.check := by
  have hmem : (i, a) ∈ p.code.toList.zipIdx := by
    rw [List.mem_zipIdx_iff_getElem?, Array.getElem?_toList]
    exact hi
  unfold check
  refine List.mem_append.mpr (Or.inl (List.mem_append.mpr (Or.inr ?_)))
  exact List.mem_filterMap.mpr ⟨(i, a), hmem, h⟩

/-- The check has a finding about every call of a label that is not declared. -/
theorem undeclared_mem_check (hi : p.get? a = some i) (hf : i.flow = .call)
    (undeclared : p.position? i.label = none) :
    (if i.label = "" then .missingLabel a else .unknownLabel a i.label) ∈ p.check := by
  refine callFinding_mem_check hi ?_
  unfold callFinding?
  rw [if_neg (not_not_intro hf)]
  by_cases hempty : i.label = ""
  · simp [hempty]
  · simp [hempty, undeclared]

theorem callsDeclared_of_check (h : p.check = []) : p.CallsDeclared := by
  intro i hi hf
  rw [Option.isSome_iff_ne_none]
  intro undeclared
  obtain ⟨a, ha⟩ := Array.getElem?_of_mem hi
  have := undeclared_mem_check ha hf undeclared
  rw [h] at this
  exact absurd this (by simp)

end Program

namespace Cursor

variable {p : Program κ α} {c : Cursor κ α}

/-- An error on a cursor comes from the last step of an update. -/
theorem Reachable.faulted (h : c.Reachable p) {e : ScriptError} (hfault : c.fault = some e) :
    ∃ (σ : Type) (I : Interpreter κ α σ) (t : Pulse κ α σ) (state : σ), t.cursor.program = p ∧
      t.Sound ∧ t.cursor.control.Fits ∧ t.step I = .ok (.done false c state) := by
  induction h with
  | start => exact absurd hfault (by simp [ofProgram])
  | @update σ c c' I state state' running h hu ih =>
      obtain ⟨n, -, hticks⟩ := h.ticks I state
      rw [hu] at hticks
      cases hticks with
      | finished _ => exact ih hfault
      | offTape unfinished _ =>
          exact absurd hfault (by simp [finish, h.ready.faultless unfinished])
      | dispatch unfinished _ takes =>
          obtain ⟨hp, hreach⟩ := h.canReach
          obtain ⟨t, hwithin, hlast⟩ := takes.within
          have sound := hwithin.sound (h.ready.sound unfinished state)
          cases (Pulse.outcome_of_step hlast).settles sound with
          | waits _ faultless _ => exact absurd hfault (by simp [faultless])
          | ended _ _ =>
              exact ⟨σ, I, t, state', hwithin.program.trans hp, sound,
                hwithin.fits hreach.fits, hlast⟩

/-- A script stopped for an unknown subroutine is at a call of it, and it is not declared. -/
theorem Reachable.undeclared (h : c.Reachable p) {a : Nat} {label : String}
    (hfault : c.fault = some (.unknownSubroutine a label)) :
    ∃ i, p.get? a = some i ∧ i.flow = .call ∧ i.label = label ∧ p.position? label = none := by
  obtain ⟨σ, I, t, state, rfl, sound, fits, hlast⟩ := h.faulted hfault
  have out := Pulse.outcome_of_step hlast
  obtain ⟨i, hi⟩ := out.on_tape sound hfault
  obtain ⟨-, -, ⟨-, herror⟩ | ⟨-, refuses⟩⟩ := out.of_fault sound fits hi hfault
  · exact absurd herror (by simp)
  · cases refuses with
    | unknownSubroutine hf undeclared => exact ⟨i, hi, hf, rfl, undeclared⟩

/-- No label is missed by a script that declares all the labels it calls. -/
theorem Reachable.fault_ne_unknown (h : c.Reachable p) (declared : p.CallsDeclared) (a : Nat)
    (label : String) : c.fault ≠ some (.unknownSubroutine a label) := by
  intro hfault
  obtain ⟨i, hi, hf, rfl, undeclared⟩ := h.undeclared hfault
  have := declared i (Array.mem_of_getElem? hi) hf
  rw [undeclared] at this
  exact absurd this (by simp)

end Cursor

end Barrage
