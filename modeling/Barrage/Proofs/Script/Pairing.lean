/-
The scan for loop brackets finds exactly the pairs that the tape has.

What belongs together on a tape can be said without any scan: a start and an end behind
it are a pair when the brackets between them are balanced.  The exits that the scan
writes down are those of the pairs, on every tape, with ends astray and loops without an
end included.

From left to right a stretch of balanced brackets goes on until it comes to an end that
it has no start for, or to a start that has no end before the stretch is to stop.  This
is `exists_balanced_upTo`.  An exit that the scan has found rules both out for the
stretch behind the start that it belongs to.
-/
import Barrage.Bullet.Vocabulary
import Barrage.Proofs.Script.Balance
import Barrage.Single

namespace Barrage

variable {κ α : Type} [Vocabulary κ] [Scalar α]

namespace Program

variable {p : Program κ α} {s s' e e' x : Nat}

/-- The start of a loop at `s` and the end at `e` belong together. -/
structure Pairs (p : Program κ α) (s e : Nat) : Prop where
  starts : p.flowAt? s = some .loopStart
  ends : p.flowAt? e = some .loopEnd
  before : s < e
  between : p.Balanced (s + 1) e

/-- Where a pair ends, its loop is the innermost one open. -/
theorem Pairs.openBefore (h : p.Pairs s e) : p.openBefore e = s :: p.openBefore s := by
  obtain ⟨i, hi, hf⟩ := exists_of_flowAt? h.starts
  rw [h.between.openBefore_eq, openBefore_start hi hf]

theorem Pairs.loopExit? (h : p.Pairs s e) : p.loopExit? s = some (e + 1) := by
  obtain ⟨j, hj, he⟩ := exists_of_flowAt? h.ends
  exact loopExit?_of_end hj he h.openBefore

/-- Where the loop that starts at `s` is the innermost one open, what lies between is balanced. -/
theorem balanced_of_openBefore (he : e ≤ p.size) (h : p.openBefore e = s :: p.openBefore s) :
    p.Balanced (s + 1) e := by
  have hmem : s ∈ p.openBefore e := by simp [h]
  have hse := lt_of_mem_openBefore he hmem
  have hstart : p.openBefore (s + 1) = s :: p.openBefore s := openBefore_top he h
  obtain ⟨b, hbalanced, rfl | ⟨hbe, j, hj, hf⟩ | hopen⟩ := exists_balanced_upTo hse he
  · exact hbalanced
  · -- an end without a start of its own would have closed the loop
    have hle := hbalanced.le
    have hclosed : p.openBefore (b + 1) = p.openBefore s := by
      rw [openBefore_end hj hf, hbalanced.openBefore_eq, hstart, List.tail_cons]
    have hmem' := mem_openBefore_of_le (by omega) hbe he hmem
    rw [hclosed] at hmem'
    exact absurd (lt_of_mem_openBefore (by omega) hmem') (Nat.lt_irrefl s)
  · -- a start without an end would be open inside of the loop
    have hle := hbalanced.le
    rw [h] at hopen
    rcases List.mem_cons.mp hopen with heq | houter
    · omega
    · have := lt_of_mem_openBefore (by omega) houter
      omega

theorem pairs_of_loopExit? (h : p.loopExit? s = some x) : ∃ e, x = e + 1 ∧ p.Pairs s e := by
  obtain ⟨e, j, rfl, hj, he, hopen⟩ := end_of_loopExit? h
  have hle := Nat.le_of_lt (lt_size_of_get? hj)
  have hsplit : p.openBefore e = [] ++ s :: p.openBefore s := hopen
  obtain ⟨hse, -, i, hi, hs⟩ := openBefore_split hle hsplit
  exact ⟨e, rfl, by rw [flowAt?_eq hi, hs], by rw [flowAt?_eq hj, he], hse,
    balanced_of_openBefore hle hopen⟩

theorem loopExit?_eq_some_iff : p.loopExit? s = some (e + 1) ↔ p.Pairs s e := by
  refine ⟨fun h => ?_, Pairs.loopExit?⟩
  obtain ⟨e', heq, hpairs⟩ := pairs_of_loopExit? h
  obtain rfl : e = e' := Nat.succ.inj heq
  exact hpairs

/-- An end belongs to one start only. -/
theorem Pairs.start_unique (h : p.Pairs s e) (h' : p.Pairs s' e) : s = s' := by
  have := h.openBefore.symm.trans h'.openBefore
  exact (List.cons.inj this).1

/-- Of two pairs the second one is behind the first or inside of it. -/
theorem Pairs.behind_or_inside (h : p.Pairs s e) (h' : p.Pairs s' e') (hlt : s < s') :
    e < s' ∨ e' < e := by
  obtain ⟨i, hi, hs⟩ := exists_of_flowAt? h.starts
  obtain ⟨j, hj, he⟩ := exists_of_flowAt? h.ends
  obtain ⟨j', hj', -⟩ := exists_of_flowAt? h'.ends
  refine (Nat.lt_or_ge e s').imp id fun hinside => ?_
  by_contra hover
  have hclosed : p.openBefore (e + 1) = p.openBefore s := openBefore_loopExit? h.loopExit?
  rcases Nat.eq_or_lt_of_le (Nat.not_lt.mp hover) with rfl | hlate
  · exact absurd (h.start_unique h') (Nat.ne_of_lt hlt)
  · -- the inner loop would still be open behind the end of the outer one
    have hopen : s' ∈ p.openBefore e' := by simp [h'.openBefore]
    have := mem_openBefore_of_le (by omega) hlate (Nat.le_of_lt (lt_size_of_get? hj')) hopen
    rw [hclosed] at this
    have := lt_of_mem_openBefore (Nat.le_of_lt (lt_size_of_get? hi)) this
    omega

/--
**The exits of loops are those of the pairs of brackets.**  A loop has an exit just
when its start has an end that belongs to it, and the exit is the position behind that
end; no other position has one.  So of two loops with an exit one comes after the other
or is inside of it, and no end is the end of two loops.
-/
theorem loopExit?_iff_pairs (p : Program κ α) :
    (∀ s e, p.loopExit? s = some (e + 1) ↔ p.Pairs s e) ∧
      (∀ s, p.loopExit? s = none ↔ ∀ e, ¬ p.Pairs s e) ∧
      (∀ s e s' e', p.loopExit? s = some (e + 1) → p.loopExit? s' = some (e' + 1) → s < s' →
        e < s' ∨ e' < e) ∧
      ∀ s s' x, p.loopExit? s = some x → p.loopExit? s' = some x → s = s' := by
  refine ⟨fun s e => loopExit?_eq_some_iff, fun s => ?_, ?_, ?_⟩
  · rw [Option.eq_none_iff_forall_ne_some]
    constructor
    · intro h e hpairs
      exact h _ hpairs.loopExit?
    · intro h x hx
      obtain ⟨e, -, hpairs⟩ := pairs_of_loopExit? hx
      exact h e hpairs
  · intro s e s' e' h h' hlt
    exact (loopExit?_eq_some_iff.mp h).behind_or_inside (loopExit?_eq_some_iff.mp h') hlt
  · intro s s' x h h'
    obtain ⟨e, rfl, hpairs⟩ := pairs_of_loopExit? h
    exact hpairs.start_unique (loopExit?_eq_some_iff.mp h')

/-- An end astray, a loop without an end, and two loops one in the other. -/
def leftOpen : Program Bullet.Kind Float32 :=
  .ofInstructions [.loopEnd, .loopStart 2, .loopStart 3, .loopStart 4, .loopEnd, .loopEnd]

theorem loopExit?_iff_pairs_leftOpen :
    leftOpen.Pairs 2 5 ∧ leftOpen.Pairs 3 4 ∧ (∀ e, ¬ leftOpen.Pairs 1 e) ∧ (5 < 3 ∨ 4 < 5) := by
  obtain ⟨exits, endless, nested, -⟩ := loopExit?_iff_pairs leftOpen
  have outer : leftOpen.loopExit? 2 = some (5 + 1) := by decide
  have inner : leftOpen.loopExit? 3 = some (4 + 1) := by decide
  exact ⟨(exits 2 5).mp outer, (exits 3 4).mp inner, (endless 1).mp (by decide),
    nested 2 5 3 4 outer inner (by decide)⟩

end Program

end Barrage
