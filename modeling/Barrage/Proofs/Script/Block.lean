/-
Scripts written in blocks.

A block has its loops and its calls as structure.  `BlockScript.compile` puts a script of
such blocks on one tape, with brackets around the bodies of loops and the subroutines
behind the end of the main block.

`Unrolls` says what the same script is without any control: the body of a loop as often
as it runs, and a subroutine wherever it is called.  It relates a block to at most one
list of instructions, and to one at all when no subroutine calls itself, not even by way
of others.
-/
import Mathlib.Data.Fintype.EquivFin
import Mathlib.Data.Fintype.Sets
import Mathlib.Logic.Relation
import Barrage.Script.Program

namespace Barrage

/-- A stretch of a script, with its loops and calls. -/
inductive Block (κ α : Type) [Vocabulary κ] where
  | done
  | plain (i : Instruction κ α) (h : i.flow.isControl = false) (rest : Block κ α)
  | loop (count : Int32) (body rest : Block κ α)
  | call (name : String) (rest : Block κ α)

namespace Block

variable {κ α : Type} [Vocabulary κ]

/-- The subroutines that a block calls. -/
def callees : Block κ α → List String
  | done => []
  | plain _ _ rest => rest.callees
  | loop _ body rest => body.callees ++ rest.callees
  | call name rest => name :: rest.callees

end Block

/-- A main block and the subroutines that blocks may call. -/
structure BlockScript (κ α : Type) [Vocabulary κ] where
  main : Block κ α
  subroutines : List (String × Block κ α)

namespace BlockScript

variable {κ α : Type} [Vocabulary κ]

/-- The block of a subroutine. -/
def block? (s : BlockScript κ α) (name : String) : Option (Block κ α) :=
  s.subroutines.lookup name

/-- The subroutine `caller` calls `callee`. -/
def Calls (s : BlockScript κ α) (callee caller : String) : Prop :=
  ∃ block, s.block? caller = some block ∧ callee ∈ block.callees

/-- All that a script of blocks has to be for it to be compiled and to have an end. -/
structure WellFormed (s : BlockScript κ α) : Prop where
  named : ∀ name ∈ s.subroutines.map Prod.fst, name ≠ ""
  distinct : (s.subroutines.map Prod.fst).Nodup
  main_closed : ∀ name ∈ s.main.callees, ∃ block, s.block? name = some block
  closed : ∀ callee caller, s.Calls callee caller → ∃ block, s.block? callee = some block
  acyclic : ∀ name, ¬ Relation.TransGen s.Calls name name

/-! ### A well-formed script has exactly one unrolling

That there is at most one holds by the structure of the block alone.  That there is one
needs more: the block of a subroutine is no part of the block that calls it, so an
induction over blocks does not reach it.  `wellFounded` gives the induction that does.
The script has finitely many subroutines and no chain of calls leads back, so calls go
down.
-/

/-- Without control, the block runs the given instructions one after the other. -/
inductive Unrolls (s : BlockScript κ α) : Block κ α → List (Instruction κ α) → Prop
  | done : Unrolls s .done []
  | plain {i : Instruction κ α} {h : i.flow.isControl = false} {rest : Block κ α}
      {after : List (Instruction κ α)} (hrest : Unrolls s rest after) :
      Unrolls s (.plain i h rest) (i :: after)
  | loop {count : Int32} {body rest : Block κ α} {pass after : List (Instruction κ α)}
      (hbody : Unrolls s body pass) (hrest : Unrolls s rest after) :
      Unrolls s (.loop count body rest)
        ((List.replicate count.toNatClampNeg pass).flatten ++ after)
  | call {name : String} {block rest : Block κ α} {inside after : List (Instruction κ α)}
      (hname : s.block? name = some block) (hblock : Unrolls s block inside)
      (hrest : Unrolls s rest after) : Unrolls s (.call name rest) (inside ++ after)

variable {s : BlockScript κ α}

/-- There is only one way to do without control. -/
theorem Unrolls.unique {block : Block κ α} {code code' : List (Instruction κ α)}
    (h : s.Unrolls block code) (h' : s.Unrolls block code') : code = code' := by
  induction h generalizing code' with
  | done =>
      cases h'
      rfl
  | plain _ ih =>
      cases h' with
      | plain hrest => rw [ih hrest]
  | loop _ _ ihbody ihrest =>
      cases h' with
      | loop hbody hrest => rw [ihbody hbody, ihrest hrest]
  | call hname _ _ ihblock ihrest =>
      cases h' with
      | call hname' hblock hrest =>
          rw [hname, Option.some.injEq] at hname'
          subst hname'
          rw [ihblock hblock, ihrest hrest]

/-- A block can do without control when the subroutines that it calls can. -/
theorem exists_unrolls_of_callees (block : Block κ α)
    (h : ∀ name ∈ block.callees, ∃ b inside, s.block? name = some b ∧ s.Unrolls b inside) :
    ∃ code, s.Unrolls block code := by
  induction block with
  | done => exact ⟨[], .done⟩
  | plain i hi rest ih =>
      obtain ⟨after, hafter⟩ := ih h
      exact ⟨_, .plain hafter⟩
  | loop count body rest ihbody ihrest =>
      obtain ⟨pass, hpass⟩ := ihbody fun name hname => h name (List.mem_append_left _ hname)
      obtain ⟨after, hafter⟩ := ihrest fun name hname => h name (List.mem_append_right _ hname)
      exact ⟨_, .loop hpass hafter⟩
  | call name rest ih =>
      obtain ⟨b, inside, hname, hinside⟩ := h name List.mem_cons_self
      obtain ⟨after, hafter⟩ := ih fun name hname => h name (List.mem_cons_of_mem _ hname)
      exact ⟨_, .call hname hinside hafter⟩

theorem mem_names_of_block? {name : String} {block : Block κ α} (h : s.block? name = some block) :
    name ∈ s.subroutines.map Prod.fst := by
  obtain ⟨before, after, heq, -⟩ := List.lookup_eq_some_iff.mp h
  rw [heq]
  simp

/-- No calls lead back when they all go down. -/
theorem acyclic_of_rank (rank : String → Nat)
    (h : ∀ callee caller, s.Calls callee caller → rank callee < rank caller) (name : String) :
    ¬ Relation.TransGen s.Calls name name := by
  have down : ∀ callee caller, Relation.TransGen s.Calls callee caller →
      rank callee < rank caller := by
    intro callee caller hcalls
    induction hcalls with
    | single hcall => exact h _ _ hcall
    | tail _ hcall ih => exact Nat.lt_trans ih (h _ _ hcall)
  exact fun hcalls => Nat.lt_irrefl _ (down name name hcalls)

/-- The script has finitely many subroutines, so calls go down where none leads back. -/
theorem WellFormed.wellFounded (h : s.WellFormed) :
    WellFounded fun a b : { name // name ∈ s.subroutines.map Prod.fst } =>
      Relation.TransGen s.Calls a.1 b.1 := by
  have : Finite { name // name ∈ s.subroutines.map Prod.fst } := inferInstance
  have trans : IsTrans { name // name ∈ s.subroutines.map Prod.fst } fun a b =>
      Relation.TransGen s.Calls a.1 b.1 := ⟨fun _ _ _ => Relation.TransGen.trans⟩
  have irrefl : Std.Irrefl fun a b : { name // name ∈ s.subroutines.map Prod.fst } =>
      Relation.TransGen s.Calls a.1 b.1 := ⟨fun a => h.acyclic a.1⟩
  exact Finite.wellFounded_of_trans_of_irrefl _

/-- Every subroutine can do without control. -/
theorem WellFormed.exists_unrolls_of_block? (h : s.WellFormed) {name : String} {block : Block κ α}
    (hname : s.block? name = some block) : ∃ code, s.Unrolls block code := by
  have all : ∀ a : { name // name ∈ s.subroutines.map Prod.fst }, ∀ block,
      s.block? a.1 = some block → ∃ code, s.Unrolls block code := by
    intro a
    induction a using h.wellFounded.induction with
    | _ a ih =>
        intro block ha
        refine exists_unrolls_of_callees block fun callee hcallee => ?_
        have calls : s.Calls callee a.1 := ⟨block, ha, hcallee⟩
        obtain ⟨b, hb⟩ := h.closed callee a.1 calls
        obtain ⟨inside, hinside⟩ := ih ⟨callee, mem_names_of_block? hb⟩ (.single calls) b hb
        exact ⟨b, inside, hb, hinside⟩
  exact all ⟨name, mem_names_of_block? hname⟩ block hname

/-- A well-formed script can do without control. -/
theorem WellFormed.exists_unrolls (h : s.WellFormed) : ∃ straight, s.Unrolls s.main straight := by
  refine exists_unrolls_of_callees s.main fun name hname => ?_
  obtain ⟨block, hblock⟩ := h.main_closed name hname
  obtain ⟨inside, hinside⟩ := h.exists_unrolls_of_block? hblock
  exact ⟨block, inside, hblock, hinside⟩

end BlockScript

/-! ### Compiling puts the subroutines behind the end of the main block

The main block is followed by the end of the script, so control comes to a subroutine by
its label only and leaves it by the return that is put behind it.
-/

variable {κ α : Type} [Vocabulary κ] [Scalar α]

/-- The instructions that a block is compiled to. -/
def Block.code : Block κ α → List (Instruction κ α)
  | .done => []
  | .plain i _ rest => i :: rest.code
  | .loop count body rest => .loopStart count :: (body.code ++ .loopEnd :: rest.code)
  | .call name rest => .call name :: rest.code

/-- Appends a subroutine, with its label before it and a return after it. -/
def BlockScript.place (b : Builder κ α) (subroutine : String × Block κ α) : Builder κ α :=
  (b.label subroutine.1).append (subroutine.2.code ++ [.ret])

/-- One tape for the whole script. -/
def BlockScript.compile (s : BlockScript κ α) : Except LabelError (Program κ α) :=
  (s.subroutines.foldl place (Builder.empty.append (s.main.code ++ [.stop]))).build

end Barrage
