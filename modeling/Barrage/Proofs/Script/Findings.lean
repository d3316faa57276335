/-
The findings of the static check are true of the program, and they are all there are.

The check reads a tape three times, and what it finds each time is in the order of the
tape; only the loops without an end come behind the ends without a loop.  What it looks
for can be said without the way in which it looks: an end is astray when it is not the
end of any loop that has an exit, a loop is unclosed when it has none, and for calls and
volleys the instruction itself is enough.

So the check and the dispatch loop are of one mind about brackets, although each of them
scans the tape for itself: the loops that the one reports are the ones for which the
other has no exit.
-/
import Barrage.Proofs.Script.Pairing

namespace Barrage

/-- A list of findings has all those with a property and no others, each once and in the order of
the tape. -/
structure Finding.Lists (property : Finding → Prop) (findings : List Finding) : Prop where
  ascending : findings.Pairwise fun f g => f.position < g.position
  mem_iff : ∀ f, f ∈ findings ↔ property f

variable {κ α : Type} [Vocabulary κ] [Scalar α]

namespace Program

variable {p : Program κ α} {i : Instruction κ α} {a s : Nat} {f : Finding}

/-! ### What there is to find, without a way to look

None of these four speaks of a scan.  What makes an end astray or a loop unclosed is
whether there is an exit, which is what the dispatch loop goes by.
-/

/-- An end that no loop has for its own. -/
inductive Astray (p : Program κ α) : Finding → Prop
  | loopEnd {e : Nat} (here : p.flowAt? e = some .loopEnd)
      (alone : ∀ s, p.loopExit? s ≠ some (e + 1)) : Astray p (.strayLoopEnd e)

/-- A loop without an end. -/
inductive Unclosed (p : Program κ α) : Finding → Prop
  | loopStart {s : Nat} (here : p.flowAt? s = some .loopStart) (endless : p.loopExit? s = none) :
      Unclosed p (.unclosedLoop s)

/-- A call without a label, or of one that the program does not declare. -/
inductive Miscalls (p : Program κ α) : Finding → Prop
  | missing {a : Nat} {i : Instruction κ α} (hi : p.get? a = some i) (hf : i.flow = .call)
      (unnamed : i.label = "") : Miscalls p (.missingLabel a)
  | unknown {a : Nat} {i : Instruction κ α} (hi : p.get? a = some i) (hf : i.flow = .call)
      (named : i.label ≠ "") (undeclared : p.position? i.label = none) :
      Miscalls p (.unknownLabel a i.label)

/-- A volley with a negative number of bullets. -/
inductive Undercounts (p : Program κ α) : Finding → Prop
  | volley {a : Nat} {i : Instruction κ α} (hi : p.get? a = some i)
      (fires : Vocabulary.firesVolley i.kind = true) (negative : i.count < 0) :
      Undercounts p (.negativeCount a i.count)

/-! ### Reading a tape once

Three of the four lists come from looking at the instructions one by one, so that they
are in the order of the tape follows once for all three: a finding is about the position
at which it is found.
-/

/-- What is found by looking at one instruction after the other. -/
def findings (p : Program κ α) (find? : Instruction κ α → Nat → Option Finding) : List Finding :=
  p.code.toList.zipIdx.filterMap fun (i, position) => find? i position

theorem mem_findings {find? : Instruction κ α → Nat → Option Finding} :
    f ∈ p.findings find? ↔ ∃ a i, p.get? a = some i ∧ find? i a = some f := by
  simp only [findings, List.mem_filterMap, Prod.exists, List.mem_zipIdx_iff_getElem?,
    Array.getElem?_toList]
  exact exists_comm

/-- What is found at the instructions one by one is in the order of the tape. -/
theorem findings_ascending {find? : Instruction κ α → Nat → Option Finding}
    (hposition : ∀ i a f, find? i a = some f → f.position = a) :
    (p.findings find?).Pairwise fun f g => f.position < g.position := by
  have positions : p.code.toList.zipIdx.Pairwise fun x y => x.2 < y.2 := by
    have hsnd := List.pairwise_lt_range' (s := 0) (n := p.code.toList.length)
    rw [← List.zipIdx_map_snd, List.pairwise_map] at hsnd
    exact hsnd
  refine List.pairwise_filterMap.mpr (positions.imp ?_)
  intro x y hlt f hf g hg
  rw [hposition _ _ _ hf, hposition _ _ _ hg]
  exact hlt

/-! ### Nothing is open at an end just where no loop has it for its own

The check finds an end astray by its own list of open loops and the property is about
exits.  They meet in `openBefore`: the loop on top at an end is the one whose exit lies
behind it.
-/

theorem astray_iff : p.Astray f ↔ ∃ a i, p.get? a = some i ∧ p.strayFinding? i a = some f := by
  constructor
  · rintro ⟨here, alone⟩
    rename_i e
    obtain ⟨i, hi, hf⟩ := exists_of_flowAt? here
    refine ⟨e, i, hi, strayFinding?_eq_some_iff.mpr ⟨hf, ?_, rfl⟩⟩
    cases hopen : p.openBefore e with
    | nil => rfl
    | cons s outer => exact absurd (loopExit?_of_end hi hf hopen) (alone s)
  · rintro ⟨a, i, hi, hfound⟩
    obtain ⟨hf, hopen, rfl⟩ := strayFinding?_eq_some_iff.mp hfound
    refine .loopEnd (by rw [flowAt?_eq hi, hf]) fun s hexit => ?_
    have := (loopExit?_eq_some_iff.mp hexit).openBefore
    rw [hopen] at this
    cases this

/-- What is open at the end of the tape are the loops without an exit. -/
theorem mem_openBefore_size_iff :
    s ∈ p.openBefore p.size ↔ p.flowAt? s = some .loopStart ∧ p.loopExit? s = none := by
  constructor
  · intro hmem
    obtain ⟨inner, outer, hsplit⟩ := List.append_of_mem hmem
    obtain ⟨-, -, i, hi, hf⟩ := openBefore_split (Nat.le_refl _) hsplit
    refine ⟨by rw [flowAt?_eq hi, hf], ?_⟩
    cases hexit : p.loopExit? s with
    | none => rfl
    | some x =>
        -- behind its end the loop would not be open any more
        obtain ⟨hlt, hle⟩ := loopExit?_bounds hexit
        have := mem_openBefore_of_le hlt hle (Nat.le_refl _) hmem
        rw [openBefore_loopExit? hexit] at this
        exact absurd (lt_of_mem_openBefore (by omega) this) (Nat.lt_irrefl s)
  · rintro ⟨here, endless⟩
    obtain ⟨i, hi, hf⟩ := exists_of_flowAt? here
    have hs := lt_size_of_get? hi
    obtain ⟨b, hbalanced, hb⟩ := exists_balanced_upTo (p := p) hs (Nat.le_refl _)
    have hopen : p.openBefore b = s :: p.openBefore s := by
      rw [hbalanced.openBefore_eq, openBefore_start hi hf]
    rcases hb with rfl | ⟨-, j, hj, he⟩ | hmem
    · simp [hopen]
    · exact absurd ((loopExit?_of_end hj he hopen).symm.trans endless) (by simp)
    · obtain ⟨inner, outer, hsplit⟩ := List.append_of_mem hmem
      obtain ⟨-, houter, -⟩ := openBefore_split (Nat.le_refl _) hsplit
      simp [hsplit, ← houter, hopen]

theorem unclosed_lists :
    Finding.Lists p.Unclosed ((p.openBefore p.size).reverse.map .unclosedLoop) where
  ascending := by
    rw [List.pairwise_map, List.pairwise_reverse]
    exact openBefore_pairwise (Nat.le_refl _)
  mem_iff f := by
    simp only [List.mem_map, List.mem_reverse, mem_openBefore_size_iff]
    constructor
    · rintro ⟨s, ⟨here, endless⟩, rfl⟩
      exact .loopStart here endless
    · rintro ⟨here, endless⟩
      exact ⟨_, ⟨here, endless⟩, rfl⟩

/-! ### For calls and volleys the instruction is enough -/

theorem callFinding?_position (h : p.callFinding? i a = some f) : f.position = a := by
  unfold callFinding? at h
  split at h
  · cases h
  · split at h
    · cases h
      rfl
    · split at h <;> cases h
      rfl

theorem miscalls_iff : p.Miscalls f ↔ ∃ a i, p.get? a = some i ∧ p.callFinding? i a = some f := by
  constructor
  · intro h
    cases h with
    | missing hi hf unnamed => exact ⟨_, _, hi, by simp [callFinding?, hf, unnamed]⟩
    | unknown hi hf named undeclared =>
        exact ⟨_, _, hi, by simp [callFinding?, hf, named, undeclared]⟩
  · rintro ⟨a, i, hi, h⟩
    unfold callFinding? at h
    split at h
    · cases h
    · rename_i hf
      have hcall : i.flow = .call := Classical.not_not.mp hf
      split at h
      · rename_i hempty
        cases h
        exact .missing hi hcall (String.isEmpty_iff.mp hempty)
      · rename_i hnamed
        split at h <;> cases h
        rename_i hundeclared
        exact .unknown hi hcall (fun heq => hnamed (String.isEmpty_iff.mpr heq))
          (Option.isNone_iff_eq_none.mp hundeclared)

theorem undercounts_iff : p.Undercounts f ↔ ∃ a i, p.get? a = some i ∧ countFinding? i a = some f := by
  constructor
  · rintro ⟨hi, fires, negative⟩
    exact ⟨_, _, hi, if_pos ⟨fires, negative⟩⟩
  · rintro ⟨a, i, hi, h⟩
    unfold countFinding? at h
    split at h
    · rename_i hcount
      cases h
      exact .volley hi hcount.1 hcount.2
    · cases h

/-! ### The whole check -/

theorem check_eq (p : Program κ α) :
    p.check = p.findings p.strayFinding? ++ (p.openBefore p.size).reverse.map .unclosedLoop
      ++ p.findings p.callFinding? ++ p.findings countFinding? := by
  rw [check, bracketFindings_eq]
  rfl

/-- An end is reported astray just where nothing is open. -/
theorem stray_mem_check_iff {e : Nat} (hi : p.get? e = some i) (hf : i.flow = .loopEnd) :
    .strayLoopEnd e ∈ p.check ↔ p.openBefore e = [] := by
  rw [check_eq, List.mem_append, List.mem_append, List.mem_append, mem_findings, mem_findings,
    mem_findings, ← miscalls_iff, ← undercounts_iff]
  constructor
  · rintro (((⟨a, j, -, hfound⟩ | hopen) | hcall) | hcount)
    · obtain ⟨-, hopen, hposition⟩ := strayFinding?_eq_some_iff.mp hfound
      rwa [Finding.strayLoopEnd.inj hposition]
    · simp at hopen
    · cases hcall
    · cases hcount
  · intro hopen
    exact Or.inl (Or.inl (Or.inl ⟨e, i, hi, strayFinding?_eq_some_iff.mpr ⟨hf, hopen, rfl⟩⟩))

theorem findings_lists {find? : Instruction κ α → Nat → Option Finding} {property : Finding → Prop}
    (hposition : ∀ i a f, find? i a = some f → f.position = a)
    (h : ∀ f, property f ↔ ∃ a i, p.get? a = some i ∧ find? i a = some f) :
    Finding.Lists property (p.findings find?) :=
  ⟨findings_ascending hposition, fun f => mem_findings.trans (h f).symm⟩

/--
**The static check finds what there is to find.**  Its findings are the ends that no
loop has for its own, the loops without an exit, the calls of a label that is missing or
not declared, and the volleys of a negative number of bullets; each of these four in the
order of the tape, with every finding once, and nothing besides.
-/
theorem check_lists (p : Program κ α) : ∃ strays unclosed calls counts,
    p.check = strays ++ unclosed ++ calls ++ counts ∧
      Finding.Lists p.Astray strays ∧ Finding.Lists p.Unclosed unclosed ∧
      Finding.Lists p.Miscalls calls ∧ Finding.Lists p.Undercounts counts := by
  refine ⟨_, _, _, _, check_eq p, findings_lists ?_ fun _ => astray_iff, unclosed_lists,
    findings_lists (fun _ _ _ => callFinding?_position) fun _ => miscalls_iff,
    findings_lists ?_ fun _ => undercounts_iff⟩
  · intro i a f h
    obtain ⟨-, -, rfl⟩ := strayFinding?_eq_some_iff.mp h
    rfl
  · intro i a f h
    unfold countFinding? at h
    split at h <;> cases h
    rfl

end Program

end Barrage
