/-
The first program that is registered under a name is the only one.

A registry does not know what it was asked before, and a call that it refuses leaves
nothing behind.  That the first good call wins is therefore a fact about the log of all
calls and their answers: what the registry has under a name is what the log has stored
there.

Cursors are cloned from a registry while more programs are registered and other cursors
run.  They have their programs for good, since a name that is taken stays so.
-/
import Mathlib.Data.List.Induction
import Mathlib.Data.String.Basic
import Mathlib.Order.Compare
import Std.Data.TreeMap.Lemmas
import Barrage.Bullet.Vocabulary
import Barrage.Proofs.Script.Tick
import Barrage.Script.Probe
import Barrage.Script.Registry
import Barrage.Single

namespace Barrage

variable {κ α : Type} [Vocabulary κ] [Scalar α]

namespace Registry

variable {r : Registry κ α} {name : String} {program p : Program κ α} {c : Cursor κ α}

/-! ### A registration is refused or adds one name

A refused call gives the registry back as it was, so two equations are enough: what the
answer is and what every name leads to afterwards.
-/

theorem contains_eq (r : Registry κ α) (name : String) : r.contains name = (r.get? name).isSome :=
  Std.TreeMap.contains_eq_isSome_getElem?

theorem get?_empty (name : String) : (empty : Registry κ α).get? name = none :=
  Std.TreeMap.getElem?_emptyc

theorem register_eq (r : Registry κ α) (name : String) (program : Program κ α) :
    r.register name program = if name ≠ "" ∧ program.isEmpty = false ∧ r.get? name = none then
      (true, ⟨r.programs.insert name program⟩) else (false, r) := by
  unfold register
  rw [contains_eq]
  by_cases good : name ≠ "" ∧ program.isEmpty = false ∧ r.get? name = none
  · obtain ⟨named, long, free⟩ := good
    simp [named, long, free]
  · rw [if_neg good, if_pos]
    simp only [Bool.or_eq_true, String.isEmpty_iff, Option.isSome_iff_ne_none]
    grind

/-- A program is stored just if it has a name and instructions, and the name is free. -/
theorem register_stored_iff : (r.register name program).1 = true ↔
    name ≠ "" ∧ program.isEmpty = false ∧ r.get? name = none := by
  rw [register_eq]
  split <;> simp_all

theorem get?_register (r : Registry κ α) (name : String) (program : Program κ α) (other : String) :
    (r.register name program).2.get? other =
      if (r.register name program).1 = true ∧ other = name then some program else r.get? other := by
  rw [register_eq]
  split
  · simp only [get?, Std.TreeMap.getElem?_insert, Std.LawfulEqCmp.compare_eq_iff_eq, true_and,
      eq_comm (a := other)]
  · simp

theorem cursor?_eq_some : r.cursor? name = some c ↔ ∃ p, r.get? name = some p ∧ .ofProgram p = c :=
  Option.map_eq_some_iff

/-! ### Names -/

theorem mem_names_iff : name ∈ r.names ↔ (r.get? name).isSome := by
  rw [names, Std.TreeMap.mem_keys, ← Std.TreeMap.contains_iff_mem]
  exact Bool.eq_iff_iff.mp (r.contains_eq name)

theorem names_ascending (r : Registry κ α) : r.names.Pairwise (· < ·) :=
  Std.TreeMap.ordered_keys.imp compare_lt_iff_lt.mp

theorem length_names (r : Registry κ α) : r.names.length = r.size :=
  Std.TreeMap.length_keys

/-! ### The registry is what its log says

A call is put into the log with the answer that it was given, so whether a good call
came before can be read there.  `FirstWins` has to say two things at once.  That a call
is stored just if it is good and the name was free speaks of the calls before it; that
the registry has what was stored speaks of them all, and makes the next answer right.
-/

/-- One call to register a program, with its answer. -/
structure Registration (κ α : Type) [Vocabulary κ] [Scalar α] where
  name : String
  program : Program κ α
  stored : Bool

/-- The call has stored its program under the name. -/
def Registration.stores (entry : Registration κ α) (name : String) : Bool :=
  entry.stored && entry.name == name

/-- The call as the registry answers it. -/
def answered (r : Registry κ α) (name : String) (program : Program κ α) : Registration κ α :=
  { name, program, stored := (r.register name program).1 }

/-- What may happen around a registry that begins empty: the log of what was asked to be
registered, the registry, and the cursors over its programs by name.  Cursors are cloned from the
registry or from one another, and are updated by any interpreters. -/
inductive History : List (Registration κ α) → Registry κ α → List (String × Cursor κ α) → Prop
  | start : History [] .empty []
  | register {log : List (Registration κ α)} {r : Registry κ α}
      {cursors : List (String × Cursor κ α)} (h : History log r cursors) (name : String)
      (program : Program κ α) :
      History (log ++ [r.answered name program]) (r.register name program).2 cursors
  | clone {log : List (Registration κ α)} {r : Registry κ α}
      {cursors : List (String × Cursor κ α)} {name : String} {c : Cursor κ α}
      (h : History log r cursors) (known : r.cursor? name = some c) :
      History log r (cursors ++ [(name, c)])
  | again {log : List (Registration κ α)} {r : Registry κ α}
      {cursors : List (String × Cursor κ α)} {name : String} {c : Cursor κ α}
      (h : History log r cursors) (live : (name, c) ∈ cursors) :
      History log r (cursors ++ [(name, c.fresh)])
  | update {log : List (Registration κ α)} {r : Registry κ α}
      {before after : List (String × Cursor κ α)} {name : String} {c c' : Cursor κ α} {σ : Type}
      {I : Interpreter κ α σ} {state state' : σ} {running : Bool}
      (h : History log r (before ++ (name, c) :: after))
      (hu : c.update I state = .ok (running, c', state')) :
      History log r (before ++ (name, c') :: after)

/-- What the log says of the registry. -/
structure FirstWins (log : List (Registration κ α)) (r : Registry κ α) : Prop where
  /-- A program was stored just if it had a name and instructions, and none was stored under that
  name before. -/
  answers : ∀ before entry, before ++ [entry] <+: log → (entry.stored = true ↔
    entry.name ≠ "" ∧ entry.program.isEmpty = false ∧
      ∀ earlier ∈ before, earlier.stores entry.name = false)
  /-- Under a name is what was stored there, which is one program or none. -/
  get : ∀ name, (log.filter (·.stores name)).map (·.program) = (r.get? name).toList
  ascending : r.names.Pairwise (· < ·)
  names : ∀ name, name ∈ r.names ↔ ∃ entry ∈ log, entry.stores name = true
  size : r.size = r.names.length

variable {log : List (Registration κ α)} {cursors : List (String × Cursor κ α)}

/-- A name is taken just if something was stored under it. -/
theorem isSome_iff_stored
    (get : ∀ name, (log.filter (·.stores name)).map (·.program) = (r.get? name).toList)
    (name : String) : (r.get? name).isSome ↔ ∃ entry ∈ log, entry.stores name = true := by
  rw [Option.isSome_iff_ne_none, ne_eq, ← Option.toList_eq_nil_iff, ← get name,
    List.map_eq_nil_iff, List.filter_eq_nil_iff]
  simp only [not_forall, not_not, exists_prop]

theorem firstWins_start : FirstWins [] (empty : Registry κ α) where
  answers := by simp
  get name := by rw [get?_empty]; rfl
  ascending := names_ascending _
  names name := by
    rw [mem_names_iff, get?_empty]
    simp
  size := (length_names _).symm

/-- One more call is answered as it should be, and leaves what was stored before. -/
theorem FirstWins.register (h : FirstWins log r) (name : String) (program : Program κ α) :
    FirstWins (log ++ [r.answered name program]) (r.register name program).2 := by
  have free : r.get? name = none ↔ ∀ entry ∈ log, entry.stores name = false := by
    rw [← Option.not_isSome_iff_eq_none, isSome_iff_stored h.get]
    simp
  have get : ∀ other, ((log ++ [r.answered name program]).filter (·.stores other)).map
      (·.program) = ((r.register name program).2.get? other).toList := by
    intro other
    rw [get?_register, List.filter_append, List.map_append, h.get]
    by_cases stored : (r.register name program).1 = true
    · obtain ⟨-, -, hfree⟩ := register_stored_iff.mp stored
      by_cases same : other = name
      · subst same
        simp [answered, Registration.stores, stored, hfree]
      · simp [answered, Registration.stores, stored, same, Ne.symm same]
    · simp [answered, Registration.stores, stored]
  refine ⟨fun before entry hprefix => ?_, get, names_ascending _, fun other => ?_,
    (length_names _).symm⟩
  · rcases List.prefix_concat_iff.mp hprefix with hlast | hprefix
    · obtain ⟨rfl, hentry⟩ := List.append_inj' hlast rfl
      obtain rfl := List.singleton_inj.mp hentry
      exact register_stored_iff.trans
        (and_congr_right fun _ => and_congr_right fun _ => free)
    · exact h.answers before entry hprefix
  · rw [mem_names_iff, isSome_iff_stored get]

theorem History.firstWins (h : History log r cursors) : FirstWins log r := by
  induction h with
  | start => exact firstWins_start
  | register _ name program ih => exact ih.register name program
  | clone _ _ ih => exact ih
  | again _ _ ih => exact ih
  | update _ _ ih => exact ih

/-! ### A cursor keeps the program of its name

Registrations go on between two updates of a cursor, and they never change what a taken
name leads to.  So a cursor is somewhere in a run of the program that its name has now.
-/

/-- A name that is taken keeps its program. -/
theorem get?_register_of_some (h : r.get? name = some p) (other : String)
    (program : Program κ α) : (r.register other program).2.get? name = some p := by
  rw [get?_register]
  refine (if_neg ?_).trans h
  rintro ⟨stored, rfl⟩
  obtain ⟨-, -, free⟩ := register_stored_iff.mp stored
  rw [h] at free
  cases free

/-- A cursor is somewhere in a run of the program that has its name. -/
theorem History.reachable (h : History log r cursors) :
    ∀ named ∈ cursors, ∃ p, r.get? named.1 = some p ∧ named.2.Reachable p := by
  induction h with
  | start => simp
  | register _ name program ih =>
      intro named hnamed
      obtain ⟨p, hp, reachable⟩ := ih named hnamed
      exact ⟨p, get?_register_of_some hp name program, reachable⟩
  | clone _ known ih =>
      obtain ⟨p, hp, rfl⟩ := cursor?_eq_some.mp known
      exact List.forall_mem_append.mpr ⟨ih, List.forall_mem_singleton.mpr ⟨p, hp, .start⟩⟩
  | again _ live ih =>
      obtain ⟨p, hp, reachable⟩ := ih _ live
      refine List.forall_mem_append.mpr ⟨ih, List.forall_mem_singleton.mpr ⟨p, hp, ?_⟩⟩
      rw [Cursor.fresh, reachable.canReach.1]
      exact .start
  | update _ hu ih =>
      obtain ⟨hbefore, hrest⟩ := List.forall_mem_append.mp ih
      obtain ⟨⟨p, hp, reachable⟩, hafter⟩ := List.forall_mem_cons.mp hrest
      refine List.forall_mem_append.mpr ⟨hbefore, List.forall_mem_cons.mpr ⟨?_, hafter⟩⟩
      exact ⟨p, hp, reachable.update hu⟩

theorem exists_history (calls : List (String × Program κ α)) : ∃ log r,
    History log r [] ∧ log.map (fun entry => (entry.name, entry.program)) = calls := by
  induction calls using List.reverseRecOn with
  | nil => exact ⟨[], .empty, .start, rfl⟩
  | append_singleton calls call ih =>
      obtain ⟨log, r, h, rfl⟩ := ih
      refine ⟨_, _, h.register call.1 call.2, ?_⟩
      rw [List.map_append]
      rfl

/--
**The first program that is registered under a name keeps it.**  Whatever is asked to be
registered, a call succeeds just if it gives a name and a program with instructions and
no call before has succeeded with that name.  The registry has under each name the
program of the one call that has succeeded with it, and lists these names in ascending
order.  A cursor that is cloned starts at the beginning of that program, and it is the
same program for all cursors of that name, whatever has become of them and whatever is
registered later.
-/
theorem firstWins_history :
    (∀ calls : List (String × Program κ α), ∃ log r,
      History log r [] ∧ log.map (fun entry => (entry.name, entry.program)) = calls) ∧
    ∀ (log : List (Registration κ α)) (r : Registry κ α) (cursors : List (String × Cursor κ α)),
      History log r cursors → FirstWins log r ∧
        (∀ name c, r.cursor? name = some c ↔ ∃ p, r.get? name = some p ∧ .ofProgram p = c) ∧
        ∀ name c, (name, c) ∈ cursors →
          ∃ p, r.get? name = some p ∧ c.Reachable p ∧ c.fresh = .ofProgram p := by
  refine ⟨exists_history, fun log r cursors h => ⟨h.firstWins, ?_, ?_⟩⟩
  · exact fun name c => cursor?_eq_some
  · intro name c live
    obtain ⟨p, hp, reachable⟩ := h.reachable _ live
    refine ⟨p, hp, reachable, ?_⟩
    rw [Cursor.fresh, reachable.canReach.1]

def drift : Program Bullet.Kind Float32 :=
  .ofInstructions [.wait 3, .stop]

def swerve : Program Bullet.Kind Float32 :=
  .ofInstructions [Bullet.Command.rotate 2.0 30]

theorem firstWins_history_drift : ∃ log r c c',
    History log r [("drift", c), ("drift", c')] ∧ c.frame = 1 ∧ c' = .ofProgram drift ∧
      log.map (fun entry => (entry.name, entry.stored)) =
        [("drift", true), ("drift", false), ("", false)] ∧
      FirstWins log r ∧ r.get? "drift" = some drift ∧ r.names = ["drift"] := by
  let I : Interpreter Bullet.Kind Float32 _ := (⟨[], #[], .keep⟩ : Probe Bullet.Kind).interpreter
  obtain ⟨c, log, hu, hframe⟩ : ∃ c log,
      (Cursor.ofProgram drift).update I ⟨#[], 0⟩ = .ok (true, c, log) ∧ c.frame = 1 :=
    ⟨_, _, rfl, rfl⟩
  have first := History.start.register "drift" drift
  have cloned := first.clone (show Registry.cursor? _ "drift" = some (.ofProgram drift) from rfl)
  have refused := ((cloned.update hu).register "drift" swerve).register "" swerve
  have all := refused.clone (show Registry.cursor? _ "drift" = some (.ofProgram drift) from rfl)
  have wins := (firstWins_history.2 _ _ _ all).1
  exact ⟨_, _, c, _, all, hframe, rfl, rfl, wins, rfl, rfl⟩

end Registry

end Barrage
