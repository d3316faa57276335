/-
Tapes whose brackets are balanced, and how long they last.

A balanced tape is a sequence of instructions and of loops whose bodies are balanced
again.  `Program.Balanced` is this structure for a stretch of a tape, and it is what
proofs about such tapes recurse on.

What is known of a single position is read off the loops that the scan has open there:
the instruction runs as often as the product of their passes, and a tape lasts as long
as its timed instructions do, each as often as it runs.
-/
import Mathlib.Algebra.BigOperators.Intervals
import Mathlib.Algebra.BigOperators.Ring.List
import Barrage.Proofs.Script.Brackets
import Barrage.Proofs.Script.Control

namespace Barrage

variable {κ α : Type} [Vocabulary κ] [Scalar α]

namespace Program

variable {p : Program κ α} {a b k : Nat} {i : Instruction κ α}

/-! ### Balanced stretches

`Balanced` has one constructor for each thing that a stretch may begin with, and the
loop has its body as a stretch of its own.  A stretch leaves the open loops as they
were, which is `Balanced.openBefore_eq`, and so a proof by induction over it may forget
the loops of a body as soon as the body is over.  That a tape on which starts and ends
match is such a stretch is proved for the stretches from every position on, the last
positions first; each of them reaches an end without a start, a start without an end, or
the end of the tape.
-/

/-- The flow of the instruction at a position. -/
def flowAt? (p : Program κ α) (k : Nat) : Option Flow :=
  (p.get? k).map Instruction.flow

theorem flowAt?_eq (hi : p.get? k = some i) : p.flowAt? k = some i.flow := by
  rw [flowAt?, hi, Option.map_some]

theorem exists_of_flowAt? {f : Flow} (h : p.flowAt? k = some f) :
    ∃ i, p.get? k = some i ∧ i.flow = f :=
  Option.map_eq_some_iff.mp h

/-- Every loop has an end and every end a loop. -/
structure Balances (p : Program κ α) : Prop where
  closed : p.openBefore p.size = []
  matched : ∀ e < p.size, p.flowAt? e = some .loopEnd → p.openBefore e ≠ []

instance (p : Program κ α) : Decidable p.Balances :=
  decidable_of_iff (p.openBefore p.size = [] ∧
      ∀ e < p.size, p.flowAt? e = some .loopEnd → p.openBefore e ≠ [])
    ⟨fun h => ⟨h.1, h.2⟩, fun h => ⟨h.closed, h.matched⟩⟩

/-- The stretch from `a` up to `b` consists of whole loops and other instructions. -/
inductive Balanced (p : Program κ α) : Nat → Nat → Prop
  | nil (a : Nat) : Balanced p a a
  | plain {a b : Nat} {i : Instruction κ α} (hi : p.get? a = some i) (hs : i.flow ≠ .loopStart)
      (he : i.flow ≠ .loopEnd) (rest : Balanced p (a + 1) b) : Balanced p a b
  | loop {a e b : Nat} {i j : Instruction κ α} (hi : p.get? a = some i)
      (hs : i.flow = .loopStart) (body : Balanced p (a + 1) e) (hj : p.get? e = some j)
      (he : j.flow = .loopEnd) (rest : Balanced p (e + 1) b) : Balanced p a b

theorem Balanced.le (h : p.Balanced a b) : a ≤ b := by
  induction h with
  | nil _ => exact Nat.le_refl _
  | plain _ _ _ _ ih => exact Nat.le_of_succ_le ih
  | loop _ _ _ _ _ _ ihbody ihrest => omega

/-- What is open before a balanced stretch is open behind it. -/
theorem Balanced.openBefore_eq (h : p.Balanced a b) : p.openBefore b = p.openBefore a := by
  induction h with
  | nil _ => rfl
  | plain hi hs he _ ih => rw [ih, openBefore_plain hi hs he]
  | loop hi hs _ hj he _ ihbody ihrest =>
      rw [ihrest, openBefore_end hj he, ihbody, openBefore_start hi hs, List.tail_cons]

/-- Inside of a balanced stretch only loops of its own are open besides those before it. -/
theorem Balanced.openBefore_inside (h : p.Balanced a b) (hak : a ≤ k) (hkb : k ≤ b) :
    ∃ inner, p.openBefore k = inner ++ p.openBefore a := by
  induction h with
  | nil a =>
      obtain rfl : k = a := by omega
      exact ⟨[], rfl⟩
  | @plain a _ _ hi hs he _ ih =>
      rcases Nat.eq_or_lt_of_le hak with rfl | hlt
      · exact ⟨[], rfl⟩
      · rw [← openBefore_plain hi hs he]
        exact ih hlt hkb
  | @loop a e _ _ _ hi hs _ hj he rest ihbody ihrest =>
      rcases Nat.eq_or_lt_of_le hak with rfl | hlt
      · exact ⟨[], rfl⟩
      rcases Nat.lt_or_ge e k with hek | hke
      · obtain ⟨inner, hinner⟩ := ihrest hek hkb
        refine ⟨inner, ?_⟩
        have hbody : p.openBefore (e + 1) = p.openBefore a :=
          (Balanced.loop hi hs ‹_› hj he (.nil _)).openBefore_eq
        rw [hinner, hbody]
      · obtain ⟨inner, hinner⟩ := ihbody hlt hke
        rw [openBefore_start hi hs] at hinner
        exact ⟨inner ++ [a], by rw [hinner, List.append_assoc, List.singleton_append]⟩

/-- A loop is open all through its body. -/
theorem Balanced.mem_openBefore {e : Nat} (body : p.Balanced (a + 1) e) (hi : p.get? a = some i)
    (hs : i.flow = .loopStart) (hak : a < k) (hke : k ≤ e) : a ∈ p.openBefore k := by
  obtain ⟨inner, hinner⟩ := body.openBefore_inside hak hke
  rw [hinner, openBefore_start hi hs]
  simp

/-- A loop that is not entered leads behind its end. -/
theorem Balanced.next?_skip {e : Nat} {j : Instruction κ α} (body : p.Balanced (a + 1) e)
    (hi : p.get? a = some i) (hs : i.flow = .loopStart) (none : i.count ≤ 0)
    (hj : p.get? e = some j) (he : j.flow = .loopEnd) (loops : List LoopFrame) :
    p.next? ⟨a, loops, []⟩ = some ⟨e + 1, loops, []⟩ := by
  have hopen : p.openBefore e = a :: p.openBefore a := by
    rw [body.openBefore_eq, openBefore_start hi hs]
  have hnext := (Moves.skip (s := ⟨a, loops, []⟩) hi hs none).next?
  rwa [loopExit?_of_end hj he hopen, Option.getD_some] at hnext

/-- From every position a balanced stretch leads to `m`, or to an end before it, or to a start of
which the loop is still open at `m`. -/
theorem exists_balanced_upTo {m : Nat} (hkm : k ≤ m) (hm : m ≤ p.size) :
    ∃ b, p.Balanced k b ∧
      (b = m ∨ (b < m ∧ ∃ i, p.get? b = some i ∧ i.flow = .loopEnd) ∨ b ∈ p.openBefore m) := by
  induction hn : m - k using Nat.strong_induction_on generalizing k with
  | _ n ih =>
  rcases Nat.eq_or_lt_of_le hkm with rfl | hlt
  · exact ⟨k, .nil _, Or.inl rfl⟩
  obtain ⟨i, hi⟩ := exists_get? (Nat.lt_of_lt_of_le hlt hm)
  by_cases he : i.flow = .loopEnd
  · exact ⟨k, .nil k, Or.inr (Or.inl ⟨hlt, i, hi, he⟩)⟩
  obtain ⟨e, hbody, hend⟩ := ih (m - (k + 1)) (by omega) hlt rfl
  by_cases hs : i.flow = .loopStart
  · have hopen : k ∈ p.openBefore e := by
      rw [hbody.openBefore_eq, openBefore_start hi hs]
      exact List.mem_cons_self
    rcases hend with rfl | ⟨hem, j, hj, hje⟩ | hmem
    · exact ⟨k, .nil k, Or.inr (Or.inr hopen)⟩
    · have hle := hbody.le
      obtain ⟨b, hrest, hb⟩ := ih (m - (e + 1)) (by omega) hem rfl
      exact ⟨b, .loop hi hs hbody hj hje hrest, hb⟩
    · -- the loops around one that is still open are open too
      obtain ⟨inner, outer, hsplit⟩ := List.append_of_mem hmem
      obtain ⟨-, houter, -⟩ := openBefore_split hm hsplit
      refine ⟨k, .nil k, Or.inr (Or.inr ?_)⟩
      rw [hsplit, ← houter]
      simp [hopen]
  · exact ⟨e, .plain hi hs he hbody, hend⟩

/-- A tape on which loops and ends match is a balanced stretch as a whole. -/
theorem Balances.balanced (h : p.Balances) : p.Balanced 0 p.size := by
  obtain ⟨b, hbalanced, rfl | ⟨-, i, hi, he⟩ | hopen⟩ :=
    exists_balanced_upTo (Nat.zero_le p.size) (Nat.le_refl _)
  · exact hbalanced
  · exact absurd (hbalanced.openBefore_eq.trans p.openBefore_zero)
      (h.matched b (lt_size_of_get? hi) (by rw [flowAt?_eq hi, he]))
  · rw [h.closed] at hopen
    exact absurd hopen List.not_mem_nil

/-- A loop that is not open any more does not open again. -/
theorem mem_openBefore_of_le {start : Nat} (hstart : start < a) (hak : a ≤ k) (hk : k ≤ p.size)
    (h : start ∈ p.openBefore k) : start ∈ p.openBefore a := by
  induction k, hak using Nat.le_induction with
  | base => exact h
  | succ k hak ih =>
      obtain ⟨i, hi⟩ := exists_get? hk
      refine ih (Nat.le_of_lt hk) ?_
      rw [openBefore_succ hi] at h
      split at h
      · rcases List.mem_cons.mp h with heq | hmem
        · omega
        · exact hmem
      · exact List.mem_of_mem_tail h
      · exact h

/-! ### How often and how long

Durations and passes below zero count as zero here, in agreement with the loop, which
does not hold for the one and does not enter for the other.  The length of a stretch is
a sum over its positions and knows nothing of how they nest, so it splits wherever one
likes; that a loop lasts as long as its passes do together is in the factor `timesAt`.
-/

/-- The passes of the loop that starts at a position. -/
def passes (p : Program κ α) (start : Nat) : Nat :=
  match p.get? start with
  | some i => i.count.toNatClampNeg
  | none => 0

/-- How often the instruction at a position runs: as often as all the loops around it have it. -/
def timesAt (p : Program κ α) (k : Nat) : Nat :=
  ((p.openBefore k).map p.passes).prod

/-- The ticks that the instruction at a position holds the script each time it runs. -/
def spanAt (p : Program κ α) (k : Nat) : Nat :=
  match p.get? k with
  | some i => if i.flow = .timed then i.duration.toNatClampNeg else 0
  | none => 0

/-- The ticks that the stretch from `a` up to `b` holds the script. -/
def ticksBetween (p : Program κ α) (a b : Nat) : Nat :=
  ∑ k ∈ Finset.Ico a b, p.spanAt k * p.timesAt k

/-- The ticks that a script lasts. -/
def ticks (p : Program κ α) : Nat :=
  p.ticksBetween 0 p.size

theorem passes_eq (hi : p.get? k = some i) : p.passes k = i.count.toNatClampNeg := by
  simp [passes, hi]

theorem spanAt_timed (hi : p.get? k = some i) (hf : i.flow = .timed) :
    p.spanAt k = i.duration.toNatClampNeg := by
  simp [spanAt, hi, hf]

theorem spanAt_of_ne (hi : p.get? k = some i) (hf : i.flow ≠ .timed) : p.spanAt k = 0 := by
  simp [spanAt, hi, hf]

theorem timesAt_congr (h : p.openBefore a = p.openBefore b) : p.timesAt a = p.timesAt b := by
  rw [timesAt, timesAt, h]

theorem timesAt_body (hi : p.get? k = some i) (hs : i.flow = .loopStart) :
    p.timesAt (k + 1) = i.count.toNatClampNeg * p.timesAt k := by
  rw [timesAt, openBefore_start hi hs, List.map_cons, List.prod_cons, passes_eq hi]
  rfl

/-- What is inside of a loop that is not entered never runs. -/
theorem timesAt_eq_zero {start : Nat} (h : start ∈ p.openBefore k) (hzero : p.passes start = 0) :
    p.timesAt k = 0 :=
  List.prod_eq_zero (hzero ▸ List.mem_map_of_mem h)

theorem ticksBetween_self (p : Program κ α) (a : Nat) : p.ticksBetween a a = 0 := by
  simp [ticksBetween]

theorem ticksBetween_trans {c : Nat} (hab : a ≤ b) (hbc : b ≤ c) :
    p.ticksBetween a c = p.ticksBetween a b + p.ticksBetween b c :=
  (Finset.sum_Ico_consecutive _ hab hbc).symm

theorem ticksBetween_succ (p : Program κ α) (a : Nat) :
    p.ticksBetween a (a + 1) = p.spanAt a * p.timesAt a := by
  simp [ticksBetween]

/-- The brackets of a loop take no time of their own. -/
theorem ticksBetween_loop {e : Nat} {j : Instruction κ α} (hi : p.get? a = some i)
    (hs : i.flow = .loopStart) (hae : a + 1 ≤ e) (hj : p.get? e = some j) (he : j.flow = .loopEnd) :
    p.ticksBetween a (e + 1) = p.ticksBetween (a + 1) e := by
  have hstart : p.ticksBetween a (a + 1) = 0 := by
    rw [ticksBetween_succ, spanAt_of_ne hi (by simp [hs]), Nat.zero_mul]
  have hend : p.ticksBetween e (e + 1) = 0 := by
    rw [ticksBetween_succ, spanAt_of_ne hj (by simp [he]), Nat.zero_mul]
  rw [ticksBetween_trans (Nat.le_succ a) (by omega : a + 1 ≤ e + 1), hstart,
    ticksBetween_trans hae (Nat.le_succ e), hend, Nat.zero_add, Nat.add_zero]

/-- A loop that is not entered takes no time. -/
theorem Balanced.ticks_of_none {e : Nat} (body : p.Balanced (a + 1) e) (hi : p.get? a = some i)
    (hs : i.flow = .loopStart) (none : i.count ≤ 0) : p.ticksBetween (a + 1) e = 0 := by
  refine Finset.sum_eq_zero fun k hk => ?_
  obtain ⟨hak, hke⟩ := Finset.mem_Ico.mp hk
  have hmem := body.mem_openBefore hi hs hak (Nat.le_of_lt hke)
  rw [timesAt_eq_zero hmem (by rw [passes_eq hi, passes_of_none none]), Nat.mul_zero]

/-! ### Stretches that make progress

A loop whose body takes no time would be stopped as a runaway after some passes, so a
tape lasts as long as it says only if every pass of every loop comes by a timed
instruction.  It has to be one that is run: in a loop of no passes it would not count,
and a loop around the whole of it does not matter.
-/

/-- Between `a` and `b` there is a timed instruction that is run whenever control passes there:
every loop around it that starts there as well has some passes. -/
def PacedBetween (p : Program κ α) (a b : Nat) : Prop :=
  ∃ k i, a ≤ k ∧ k < b ∧ p.get? k = some i ∧ i.flow = .timed ∧
    ∀ start ∈ p.openBefore k, a ≤ start → 0 < p.passes start

theorem not_pacedBetween_self (p : Program κ α) (a : Nat) : ¬ p.PacedBetween a a := by
  rintro ⟨k, i, hak, hka, -⟩
  omega

theorem not_pacedBetween_of_ne (hi : p.get? a = some i) (hf : i.flow ≠ .timed) :
    ¬ p.PacedBetween a (a + 1) := by
  rintro ⟨k, j, hak, hka, hj, hjf, -⟩
  obtain rfl : k = a := by omega
  rw [hi, Option.some.injEq] at hj
  exact hf (hj ▸ hjf)

theorem PacedBetween.split {c : Nat} (h : p.PacedBetween a c) (hab : a ≤ b) :
    p.PacedBetween a b ∨ p.PacedBetween b c := by
  obtain ⟨k, i, hak, hkc, hi, hf, hpasses⟩ := h
  rcases Nat.lt_or_ge k b with hkb | hbk
  · exact Or.inl ⟨k, i, hak, hkb, hi, hf, hpasses⟩
  · exact Or.inr ⟨k, i, hbk, hkc, hi, hf,
      fun start hmem hle => hpasses start hmem (Nat.le_trans hab hle)⟩

/-- A loop that is not entered makes no progress. -/
theorem Balanced.not_paced_of_none {e : Nat} (body : p.Balanced (a + 1) e)
    (hi : p.get? a = some i) (hs : i.flow = .loopStart) (none : i.count ≤ 0) :
    ¬ p.PacedBetween a (e + 1) := by
  rintro ⟨k, i', hak, hke, hi', hf, hpasses⟩
  rcases Nat.eq_or_lt_of_le hak with rfl | hlt
  · rw [hi, Option.some.injEq] at hi'
    rw [← hi', hs] at hf
    exact absurd hf (by simp)
  · have hpos := hpasses a (body.mem_openBefore hi hs hlt (Nat.le_of_lt_succ hke)) (Nat.le_refl a)
    rw [passes_eq hi, passes_of_none none] at hpos
    exact absurd hpos (Nat.lt_irrefl 0)

/-- In the body of the loop at `start` there is a timed instruction, and it is in no loop of the
body that is not entered. -/
def HasPace (p : Program κ α) (start : Nat) : Prop :=
  ∃ k < p.size, p.flowAt? k = some .timed ∧ start ∈ p.openBefore k ∧
    ∀ inner ∈ p.openBefore k, start < inner → 0 < p.passes inner

instance (p : Program κ α) (start : Nat) : Decidable (p.HasPace start) :=
  inferInstanceAs (Decidable (∃ k < p.size, p.flowAt? k = some .timed ∧ start ∈ p.openBefore k ∧
    ∀ inner ∈ p.openBefore k, start < inner → 0 < p.passes inner))

/-- A script without subroutines, stops and yielding instructions, each loop of which has a timed
instruction in every pass. -/
structure Paced (p : Program κ α) : Prop where
  flows : ∀ i ∈ p.code,
    i.flow = .instant ∨ i.flow = .timed ∨ i.flow = .loopStart ∨ i.flow = .loopEnd
  balances : p.Balances
  depth : ∀ k ≤ p.size, (p.openBefore k).length ≤ 64
  paces : ∀ start < p.size, p.flowAt? start = some .loopStart → 0 < p.passes start →
    p.HasPace start

instance (p : Program κ α) : Decidable p.Paced :=
  decidable_of_iff ((∀ i ∈ p.code,
      i.flow = .instant ∨ i.flow = .timed ∨ i.flow = .loopStart ∨ i.flow = .loopEnd) ∧
      p.Balances ∧ (∀ k ≤ p.size, (p.openBefore k).length ≤ 64) ∧
      ∀ start < p.size, p.flowAt? start = some .loopStart → 0 < p.passes start → p.HasPace start)
    ⟨fun h => ⟨h.1, h.2.1, h.2.2.1, h.2.2.2⟩, fun h => ⟨h.flows, h.balances, h.depth, h.paces⟩⟩

theorem Paced.flow_of_get? (h : p.Paced) (hi : p.get? k = some i) :
    i.flow = .instant ∨ i.flow = .timed ∨ i.flow = .loopStart ∨ i.flow = .loopEnd :=
  h.flows i (Array.mem_of_getElem? hi)

/-- Every pass of a loop makes progress. -/
theorem Paced.body_paced {e : Nat} {j : Instruction κ α} (h : p.Paced)
    (body : p.Balanced (a + 1) e) (hi : p.get? a = some i) (hs : i.flow = .loopStart)
    (positive : 0 < i.count) (hj : p.get? e = some j) (he : j.flow = .loopEnd) :
    p.PacedBetween (a + 1) e := by
  have hpasses : 0 < p.passes a := by
    obtain ⟨m, hm⟩ := exists_passes (n := i.count) (by grind)
    rw [passes_eq hi, hm]
    exact Nat.succ_pos m
  obtain ⟨k, hlt, hflow, hmem, hpasses⟩ :=
    h.paces a (lt_size_of_get? hi) (by rw [flowAt?_eq hi, hs]) hpasses
  obtain ⟨i', hi', hf⟩ := exists_of_flowAt? hflow
  have hak := lt_of_mem_openBefore (Nat.le_of_lt hlt) hmem
  refine ⟨k, i', hak, ?_, hi', hf, fun start hstart hle => hpasses start hstart hle⟩
  -- behind its end the loop is not open any more, and the end itself is not timed
  by_contra hek
  have hclosed : p.openBefore (e + 1) = p.openBefore a :=
    (Balanced.loop hi hs body hj he (.nil _)).openBefore_eq
  rcases Nat.eq_or_lt_of_le (Nat.not_lt.mp hek) with rfl | hek
  · rw [hj, Option.some.injEq] at hi'
    rw [← hi', he] at hf
    exact absurd hf (by simp)
  · have hle := body.le
    have := mem_openBefore_of_le (by omega) hek (Nat.le_of_lt hlt) hmem
    rw [hclosed] at this
    exact Nat.lt_irrefl a (lt_of_mem_openBefore (Nat.le_of_lt (lt_size_of_get? hi)) this)

end Program

end Barrage
