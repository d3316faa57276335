/-
The library of a catalog that nothing is found wrong with.

A library is closed when every name that one of its programs uses stands for something:
labels inside of the program, motions that shots attach, and shots that enemies start.
Registration keeps the first program of a name, and drops those that have no name or
no instructions.  So what the library has under a name is one of the catalog's programs:
what is found of none of them holds of the library, and the names that they refer to
are looked up in the library itself.
-/
import Barrage.Catalog.Audit
import Barrage.Proofs.Script.Labels
import Barrage.Proofs.Script.Registry

namespace Barrage

variable {κ α : Type} [Vocabulary κ] [Scalar α]

/-! ### Registration

A name can be taken once.  So registering a list is a search for the first pattern that
provides the name, behind whatever the registry has had before; by induction over the
list, with the registry left general.
-/

/-- Whether a pattern can be found under a name: it has that name, and something to run. -/
def Pattern.provides (name : String) (pattern : Pattern κ α) : Bool :=
  pattern.id == name && !pattern.id.isEmpty && !pattern.program.isEmpty

namespace Registry

variable {name : String}

/-- A name that is taken keeps its program. -/
theorem get?_register_pattern (r : Registry κ α) (pattern : Pattern κ α) (name : String) :
    (r.register pattern.id pattern.program).2.get? name =
      (r.get? name).or (if pattern.provides name then some pattern.program else none) := by
  cases taken : r.get? name with
  | some p =>
      rw [Option.some_or]
      exact get?_register_of_some taken _ _
  | none =>
      simp only [get?_register, register_stored_iff, taken, Option.none_or]
      by_cases same : name = pattern.id
      · subst same
        simp [Pattern.provides, taken]
      · simp [Pattern.provides, same, Ne.symm same]

/-- The first program that is registered under a name has it. -/
theorem get?_registerAll (r : Registry κ α) (patterns : List (Pattern κ α)) (name : String) :
    (r.registerAll (patterns.map fun p => (p.id, p.program))).get? name =
      (r.get? name).or ((patterns.find? (·.provides name)).map (·.program)) := by
  induction patterns generalizing r with
  | nil => simp [registerAll]
  | cons pattern rest ih =>
      have hrest := ih (r.register pattern.id pattern.program).2
      rw [get?_register_pattern, Option.or_assoc] at hrest
      refine hrest.trans (congrArg _ ?_)
      cases h : pattern.provides name <;> simp [h]

end Registry

/-! ### Closed libraries

The problems of a catalog are one list, made up of a list for each pattern.  If it is
empty then so are its parts, and an instruction that is not listed has a name that is
known.  Known is what the library of the catalog itself has.
-/

/-- Every name that a shot program uses stands for something. -/
structure Shot.ClosedIn (library : Library α) (p : Program Shot.Kind α) : Prop where
  calls : p.CallsDeclared
  motions : ∀ i ∈ p.code, i.kind = .attachMotion → library.bullets.contains i.label = true

/-- Every name that an enemy program uses stands for something. -/
structure Enemy.ClosedIn (library : Library α) (p : Program Enemy.Kind α) : Prop where
  calls : p.CallsDeclared
  shots : ∀ i ∈ p.code, i.kind = .fire → library.shots.contains i.label = true

/-- Every name that is used in the library stands for something. -/
structure Library.Closed (library : Library α) : Prop where
  bullets : ∀ name p, library.bullets.get? name = some p → p.CallsDeclared
  shots : ∀ name p, library.shots.get? name = some p → Shot.ClosedIn library p
  enemies : ∀ name p, library.enemies.get? name = some p → Enemy.ClosedIn library p

namespace Catalog

variable {c : Catalog α}

/-- What the registry of some patterns has under a name: the program of the first that can be
found under it. -/
theorem get?_registryOf (patterns : List (Pattern κ α)) (name : String) :
    (registryOf patterns).get? name = (patterns.find? (·.provides name)).map (·.program) := by
  rw [registryOf, Registry.get?_registerAll, Registry.get?_empty, Option.none_or]

/-- Every program of the registry is that of one of the patterns. -/
theorem exists_pattern {patterns : List (Pattern κ α)} {name : String} {p : Program κ α}
    (h : (registryOf patterns).get? name = some p) : ∃ pattern ∈ patterns, pattern.program = p := by
  rw [get?_registryOf, Option.map_eq_some_iff] at h
  obtain ⟨pattern, hfind, hp⟩ := h
  exact ⟨pattern, List.mem_of_find?_eq_some hfind, hp⟩

theorem callsDeclared_of_findings {patterns : List (Pattern κ α)} (h : findings patterns = [])
    {pattern : Pattern κ α} (hpattern : pattern ∈ patterns) : pattern.program.CallsDeclared :=
  Program.callsDeclared_of_check
    (List.map_eq_nil_iff.mp (List.flatMap_eq_nil_iff.mp h pattern hpattern))

/-- Where no problem is listed for the instructions of a kind that use an unknown name, all the
names they use are known. -/
theorem known_of_listed [DecidableEq κ] {p : Program κ α} (kind : κ) (known : String → Bool)
    (problem : Instruction κ α → Nat → Problem)
    (h : p.code.toList.zipIdx.filterMap (fun (i, position) =>
      if i.kind = kind ∧ !known i.label then some (problem i position) else none) = [])
    {i : Instruction κ α} (hi : i ∈ p.code) (hkind : i.kind = kind) : known i.label = true := by
  obtain ⟨a, ha⟩ := Array.getElem?_of_mem hi
  have hmem : (i, a) ∈ p.code.toList.zipIdx := by
    rw [List.mem_zipIdx_iff_getElem?, Array.getElem?_toList]
    exact ha
  have := List.filterMap_eq_nil_iff.mp h (i, a) hmem
  simpa [hkind] using this

/-- The library of a catalog is closed when nothing is found wrong with the catalog. -/
theorem install_closed (h : c.problems = []) : c.install.Closed := by
  unfold problems at h
  obtain ⟨hfindings, hdangling⟩ := List.append_eq_nil_iff.mp h
  obtain ⟨hfindings, henemies⟩ := List.append_eq_nil_iff.mp hfindings
  obtain ⟨hbullets, hshots⟩ := List.append_eq_nil_iff.mp hfindings
  obtain ⟨hfire, hattach⟩ := List.append_eq_nil_iff.mp hdangling
  refine ⟨?_, ?_, ?_⟩
  · intro name p hp
    obtain ⟨pattern, hpattern, rfl⟩ := exists_pattern hp
    exact callsDeclared_of_findings hbullets hpattern
  · intro name p hp
    obtain ⟨pattern, hpattern, rfl⟩ := exists_pattern hp
    exact ⟨callsDeclared_of_findings hshots hpattern, fun i hi hkind =>
      known_of_listed .attachMotion c.install.bullets.contains
        (fun i position => .unknownMotion pattern.id i.label position)
        (List.flatMap_eq_nil_iff.mp hattach pattern hpattern) hi hkind⟩
  · intro name p hp
    obtain ⟨pattern, hpattern, rfl⟩ := exists_pattern hp
    exact ⟨callsDeclared_of_findings henemies hpattern, fun i hi hkind =>
      known_of_listed .fire c.install.shots.contains
        (fun i position => .unknownShot pattern.id i.label position)
        (List.flatMap_eq_nil_iff.mp hfire pattern hpattern) hi hkind⟩

end Catalog

end Barrage
