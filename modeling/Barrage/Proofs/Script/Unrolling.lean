/-
What control makes of a script of blocks.

`Remains p s rest` says that from `s` on the script runs the instructions `rest`, one after
the other, and then comes to its end; brackets, calls and returns only move control from
one of them to the next.  So a compiled script has its unrolled main block to run.

This is shown block by block, each with everything that is to come after it: if `rest`
remains behind a block, then the unrolled block and `rest` remain before it.  For a loop
it is shown for each pass in turn, the last pass first.
-/
import Barrage.Proofs.Script.Control
import Barrage.Proofs.Script.Layout

namespace Barrage

variable {κ α : Type} [Vocabulary κ] [Scalar α]

/-- From `s` on the script runs these instructions, and then it ends. -/
inductive Program.Remains (p : Program κ α) : Control → List (Instruction κ α) → Prop
  | stop {s : Control} {i : Instruction κ α} (hi : p.get? s.ip = some i) (hf : i.flow = .stop) :
      Remains p s []
  | plain {s : Control} {i : Instruction κ α} {rest : List (Instruction κ α)}
      (hi : p.get? s.ip = some i) (hf : i.flow.isControl = false)
      (h : Remains p { s with ip := s.ip + 1 } rest) : Remains p s (i :: rest)
  | jump {s s' : Control} {i : Instruction κ α} {rest : List (Instruction κ α)}
      (hi : p.get? s.ip = some i) (hf : i.flow.Jumps) (hnext : p.next? s = some s')
      (h : Remains p s' rest) : Remains p s rest

namespace Program

variable {p : Program κ α} {k : Nat} {loops : List LoopFrame} {calls : List Nat}
  {pass tail : List (Instruction κ α)}

/-! ### Loops

The passes are taken from the last one back to the first, since what remains at the end
of the body is known only once it is known what remains behind it.  A loop that is not
entered is the case of no passes.
-/

/-- A loop has its passes before it, and then what comes after it. -/
theorem Remains.passes {e : Nat} {i : Instruction κ α} (hi : p.get? e = some i)
    (hf : i.flow = .loopEnd)
    (body : ∀ loops tail, p.Remains ⟨e, loops, calls⟩ tail →
      p.Remains ⟨k + 1, loops, calls⟩ (pass ++ tail))
    (after : p.Remains ⟨e + 1, loops, calls⟩ tail) {remaining : Int32} (hpos : 1 ≤ remaining) :
    p.Remains ⟨k + 1, ⟨k, remaining⟩ :: loops, calls⟩
      ((List.replicate remaining.toNatClampNeg pass).flatten ++ tail) := by
  refine passes_induction (P := fun remaining n => p.Remains ⟨k + 1, ⟨k, remaining⟩ :: loops, calls⟩
    ((List.replicate n pass).flatten ++ tail)) ?_ ?_ hpos
  · intro n _ hlast
    have hclose : p.next? ⟨e, ⟨k, n⟩ :: loops, calls⟩ = some ⟨e + 1, loops, calls⟩ := by
      simp [next?, hi, hf, hlast]
    simpa using body (⟨k, n⟩ :: loops) tail (.jump hi (Or.inr (Or.inl hf)) hclose after)
  · intro n m _ hmore ih
    have hagain : p.next? ⟨e, ⟨k, n⟩ :: loops, calls⟩
        = some ⟨k + 1, ⟨k, n - 1⟩ :: loops, calls⟩ := by
      simp [next?, hi, hf, hmore]
    rw [List.replicate_succ, List.flatten_cons, List.append_assoc]
    exact body (⟨k, n⟩ :: loops) _ (.jump hi (Or.inr (Or.inl hf)) hagain ih)

/-- A loop is its body as often as it runs, which may be not at all. -/
theorem Remains.loop {count : Int32} {body : Block κ α} {rest : List (Instruction κ α)}
    (hat : p.At k (.loopStart count :: (body.code ++ .loopEnd :: rest)))
    (hbody : ∀ loops tail, p.Remains ⟨k + 1 + body.code.length, loops, calls⟩ tail →
      p.Remains ⟨k + 1, loops, calls⟩ (pass ++ tail))
    (after : p.Remains ⟨k + body.code.length + 2, loops, calls⟩ tail) :
    p.Remains ⟨k, loops, calls⟩
      ((List.replicate count.toNatClampNeg pass).flatten ++ tail) := by
  have hi := hat.get?
  have hf := Instruction.loopStart_flow (κ := κ) (α := α) count
  by_cases hn : count ≤ 0
  · have hskip : p.next? ⟨k, loops, calls⟩ = some ⟨k + body.code.length + 2, loops, calls⟩ := by
      simp [next?, hi, hat.loopExit?, hn]
    rw [passes_of_none hn, List.replicate_zero, List.flatten_nil, List.nil_append]
    exact .jump hi (Or.inl hf) hskip after
  · have hpos : 1 ≤ count := by grind
    have hend := hat.tail.right.get?
    have henter : p.next? ⟨k, loops, calls⟩ = some ⟨k + 1, ⟨k, count⟩ :: loops, calls⟩ := by
      simp [next?, hi, hn]
    have hbehind : k + body.code.length + 2 = k + 1 + body.code.length + 1 := by omega
    rw [hbehind] at after
    exact .jump hi (Or.inl hf) henter
      (.passes hend Instruction.loopEnd_flow hbody after hpos)

end Program

/-! ### A block remains as its unrolling

By induction on how the block is unrolled, for any position it is at and whatever
remains behind it.  A call is the one case that leaves the stretch of tape; the return
address brings it back to what is behind.
-/

namespace BlockScript

variable {s : BlockScript κ α} {p : Program κ α}

/-- What remains before a block on the tape is the unrolled block and what remains behind it. -/
theorem Unrolls.remains (compiled : s.Compiled p) {block : Block κ α}
    {code : List (Instruction κ α)} (h : s.Unrolls block code) :
    ∀ {k : Nat} {loops : List LoopFrame} {calls : List Nat} {tail : List (Instruction κ α)},
      p.At k block.code → p.Remains ⟨k + block.code.length, loops, calls⟩ tail →
      p.Remains ⟨k, loops, calls⟩ (code ++ tail) := by
  induction h with
  | done =>
      intro k loops calls tail _ after
      exact after
  | @plain i hi rest _ _ ih =>
      intro k loops calls tail hat after
      have hbehind : k + (Block.plain i hi rest).code.length = k + 1 + rest.code.length := by
        simp only [Block.code, List.length_cons]
        omega
      rw [hbehind] at after
      exact .plain hat.get? hi (ih hat.tail after)
  | @loop count body rest pass _ _ _ ihbody ihrest =>
      intro k loops calls tail hat after
      have hbehind : k + (Block.loop count body rest).code.length
          = k + body.code.length + 2 + rest.code.length := by
        simp only [Block.code, List.length_cons, List.length_append]
        omega
      have hrest : p.At (k + body.code.length + 2) rest.code := by
        have hposition : k + body.code.length + 2 = k + 1 + body.code.length + 1 := by omega
        rw [hposition]
        exact hat.tail.right.tail
      rw [hbehind] at after
      rw [List.append_assoc]
      exact .loop hat (fun _ _ => ihbody hat.tail.left) (ihrest hrest after)
  | @call name block rest _ _ hname _ _ ihblock ihrest =>
      intro k loops calls tail hat after
      obtain ⟨target, htarget, hsub⟩ := compiled.subroutine name block hname
      have hbehind : k + (Block.call name rest).code.length = k + 1 + rest.code.length := by
        simp only [Block.code, List.length_cons]
        omega
      have hcall : p.next? ⟨k, loops, calls⟩ = some ⟨target, loops, (k + 1) :: calls⟩ := by
        simp [Program.next?, hat.get?, htarget]
      have hret : p.next? ⟨target + block.code.length, loops, (k + 1) :: calls⟩
          = some ⟨k + 1, loops, calls⟩ := by
        simp [Program.next?, hsub.right.get?]
      rw [hbehind] at after
      rw [List.append_assoc]
      -- the return is behind the block of the subroutine, and what comes after the call behind it
      have back := Program.Remains.jump hsub.right.get?
        (Or.inr (Or.inr (Or.inr Instruction.ret_flow))) hret (ihrest hat.tail after)
      exact .jump hat.get? (Or.inr (Or.inr (Or.inl (Instruction.call_flow name)))) hcall
        (ihblock hsub.left back)

/-- A compiled script has its unrolled main block to run. -/
theorem Unrolls.remains_start (compiled : s.Compiled p) {straight : List (Instruction κ α)}
    (h : s.Unrolls s.main straight) : p.Remains .start straight := by
  have atEnd : p.get? (0 + s.main.code.length) = some .stop := compiled.main.right.get?
  have hmain : p.Remains ⟨0, [], []⟩ (straight ++ []) :=
    h.remains compiled compiled.main.left (.stop atEnd Instruction.stop_flow)
  rw [List.append_nil] at hmain
  exact hmain

end BlockScript

end Barrage
