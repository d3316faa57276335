/-
The libraries that cannot bring a run down.

What may crash is listed for a whole catalog by `hazards`, and the library of a catalog
without any has no program with an instruction that may.  The built-in catalog is one.
-/
import Barrage.Catalog.BuiltIn
import Barrage.Proofs.Catalog.Closed
import Barrage.Proofs.Host.Risk

namespace Barrage

variable {κ : Type} [Vocabulary κ]

/-- The program is in the registry, under some name. -/
def Registry.Holds (r : Registry κ Float32) (p : Program κ Float32) : Prop :=
  ∃ name, r.get? name = some p

/-- An instruction of the library may crash with `e`. -/
inductive Library.Risks (library : Library Float32) (e : Crash) : Prop
  | bullet {p : Program Bullet.Kind Float32} (held : library.bullets.Holds p)
      (risk : ∃ i ∈ p.code, Bullet.risk? i = some e)
  | shot {p : Program Shot.Kind Float32} (held : library.shots.Holds p)
      (risk : ∃ i ∈ p.code, Shot.risk? i = some e)
  | enemy {p : Program Enemy.Kind Float32} (held : library.enemies.Holds p)
      (risk : ∃ i ∈ p.code, Enemy.risk? i = some e)

namespace Catalog

/-- With what the instructions of some patterns may crash. -/
def hazardsOf (risk? : Instruction κ Float32 → Option Crash) (patterns : List (Pattern κ Float32)) :
    List Crash :=
  patterns.flatMap fun pattern => pattern.program.code.toList.filterMap risk?

/-- With what the instructions of a catalog may crash. -/
def hazards (c : Catalog Float32) : List Crash :=
  hazardsOf Bullet.risk? c.bullets ++ hazardsOf Shot.risk? c.shots ++
    hazardsOf Enemy.risk? c.enemies

theorem mem_hazardsOf {risk? : Instruction κ Float32 → Option Crash}
    {patterns : List (Pattern κ Float32)} {p : Program κ Float32} {e : Crash}
    (held : (registryOf patterns).Holds p) (risk : ∃ i ∈ p.code, risk? i = some e) :
    e ∈ hazardsOf risk? patterns := by
  obtain ⟨name, hname⟩ := held
  obtain ⟨pattern, hpattern, rfl⟩ := exists_pattern hname
  obtain ⟨i, hi, he⟩ := risk
  exact List.mem_flatMap.mpr
    ⟨pattern, hpattern, List.mem_filterMap.mpr ⟨i, Array.mem_toList_iff.mpr hi, he⟩⟩

/-- Whatever may go wrong in the library of a catalog is listed. -/
theorem mem_hazards {c : Catalog Float32} {e : Crash} (risks : c.install.Risks e) :
    e ∈ c.hazards := by
  unfold hazards
  cases risks with
  | bullet held risk =>
      exact List.mem_append_left _ (List.mem_append_left _ (mem_hazardsOf held risk))
  | shot held risk =>
      exact List.mem_append_left _ (List.mem_append_right _ (mem_hazardsOf held risk))
  | enemy held risk => exact List.mem_append_right _ (mem_hazardsOf held risk)

/-- Nothing goes wrong where nothing is listed. -/
theorem not_risks {c : Catalog Float32} (safe : c.hazards = []) (e : Crash) :
    ¬ c.install.Risks e := by
  intro risks
  have listed := mem_hazards risks
  rw [safe] at listed
  exact absurd listed List.not_mem_nil

/-- There are no hazards in the built-in catalog. -/
theorem builtIn_hazards : builtIn.map hazards = .ok [] := by rfl

end Catalog

end Barrage
