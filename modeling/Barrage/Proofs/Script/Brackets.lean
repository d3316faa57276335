/-
What the scan for loop brackets knows along a tape.

`Program.openBefore k` are the loops that the scan has open when it comes to position
`k`.  One instruction changes them in one of three ways, and from these everything else
follows: an open loop is one that is still open at its own start, an end closes the loop
on top, and the exit of a loop is the position behind the end that closes it.

The findings about brackets come from a scan of their own.  It keeps the same list, and
so it finds an end astray just where nothing is open.
-/
import Barrage.Proofs.Script.LoopScan
import Barrage.Script.Check

namespace Barrage

variable {κ α : Type} [Vocabulary κ] [Scalar α]

namespace LoopScan

/-- What is open after an instruction depends on what was open before it and on nothing else. -/
theorem read_opened (s : LoopScan) (k : Nat) (flow : Flow) :
    (s.read k flow).opened = match flow with
      | .loopStart => k :: s.opened
      | .loopEnd => s.opened.tail
      | _ => s.opened := by
  cases flow with
  | loopEnd =>
      simp only [read]
      split <;> rename_i h <;> simp [h]
  | _ => rfl

theorem readAll_opened_congr (flows : List Flow) {s s' : LoopScan} (h : s.opened = s'.opened)
    (k : Nat) : (s.readAll k flows).opened = (s'.readAll k flows).opened := by
  induction flows generalizing s s' k with
  | nil => exact h
  | cons flow rest ih =>
      rw [readAll_cons, readAll_cons]
      refine ih ?_ (k + 1)
      rw [read_opened, read_opened, h]

end LoopScan

namespace Program

variable {p : Program κ α} {k start : Nat} {i : Instruction κ α}

/-! ### The open loops are those of a prefix of the tape

The scan writes down exits as well, but what is open never depends on them, so it is a
function of the flows up to the position.  Reading it from there gives the list its
order: an open loop was on top just behind its start, above exactly the loops that were
open before.
-/

/-- Where the loops start that the scan has open just before position `k`, the innermost first. -/
def openBefore (p : Program κ α) (k : Nat) : List Nat :=
  (loopScan (p.flows.take k)).opened

/-- The scan of the whole tape, come to position `k`. -/
def scanTo (p : Program κ α) (k : Nat) : LoopScan :=
  (LoopScan.initial p.size).readAll 0 (p.flows.take k)

theorem scanTo_opened (p : Program κ α) (k : Nat) : (p.scanTo k).opened = p.openBefore k := by
  rw [openBefore, LoopScan.loopScan_eq]
  have hsame : (LoopScan.initial p.size).opened
      = (LoopScan.initial (p.flows.take k).length).opened := rfl
  exact LoopScan.readAll_opened_congr _ hsame 0

theorem flows_take_succ (hi : p.get? k = some i) :
    p.flows.take (k + 1) = p.flows.take k ++ [i.flow] := by
  have hk : p.flows[k]? = some i.flow := by
    simp only [get?] at hi
    simp [flows, hi]
  rw [List.take_add_one, hk, Option.toList_some]

theorem scanTo_succ (hi : p.get? k = some i) : p.scanTo (k + 1) = (p.scanTo k).read k i.flow := by
  have hk := lt_size_of_get? hi
  have hlength : (p.flows.take k).length = k := by
    rw [List.length_take, length_flows]
    omega
  rw [scanTo, flows_take_succ hi, LoopScan.readAll_append, hlength, Nat.zero_add]
  rfl

theorem scanTo_size (p : Program κ α) : p.scanTo p.size = loopScan p.flows := by
  rw [scanTo, List.take_of_length_le (by simp), LoopScan.loopScan_eq, length_flows]

theorem openBefore_zero (p : Program κ α) : p.openBefore 0 = [] := rfl

theorem openBefore_succ (hi : p.get? k = some i) :
    p.openBefore (k + 1) = match i.flow with
      | .loopStart => k :: p.openBefore k
      | .loopEnd => (p.openBefore k).tail
      | _ => p.openBefore k := by
  rw [← scanTo_opened, scanTo_succ hi, LoopScan.read_opened, scanTo_opened]

theorem openBefore_start (hi : p.get? k = some i) (hf : i.flow = .loopStart) :
    p.openBefore (k + 1) = k :: p.openBefore k := by
  rw [openBefore_succ hi, hf]

theorem openBefore_end (hi : p.get? k = some i) (hf : i.flow = .loopEnd) :
    p.openBefore (k + 1) = (p.openBefore k).tail := by
  rw [openBefore_succ hi, hf]

theorem openBefore_plain (hi : p.get? k = some i) (hs : i.flow ≠ .loopStart)
    (he : i.flow ≠ .loopEnd) : p.openBefore (k + 1) = p.openBefore k := by
  rw [openBefore_succ hi]
  split
  · exact absurd ‹_› hs
  · exact absurd ‹_› he
  · rfl

theorem exists_get? (h : k < p.size) : ∃ i, p.get? k = some i :=
  ⟨p.code[k], Array.getElem?_eq_getElem h⟩

/-- An open loop has a start on the tape behind it, where the loops around it were open. -/
theorem openBefore_split {inner outer : List Nat} (hk : k ≤ p.size)
    (h : p.openBefore k = inner ++ start :: outer) :
    start < k ∧ p.openBefore start = outer ∧
      ∃ i, p.get? start = some i ∧ i.flow = .loopStart := by
  induction k generalizing inner with
  | zero => exact absurd h (by simp [openBefore_zero])
  | succ k ih =>
      obtain ⟨i, hi⟩ := exists_get? hk
      have earlier : ∀ {inner : List Nat}, p.openBefore k = inner ++ start :: outer →
          start < k + 1 ∧ p.openBefore start = outer ∧
            ∃ i, p.get? start = some i ∧ i.flow = .loopStart := by
        intro inner h
        obtain ⟨hlt, hrest⟩ := ih (Nat.le_of_lt hk) h
        exact ⟨Nat.lt_succ_of_lt hlt, hrest⟩
      by_cases hs : i.flow = .loopStart
      · rw [openBefore_start hi hs] at h
        cases inner with
        | nil =>
            rw [List.nil_append, List.cons.injEq] at h
            obtain ⟨rfl, houter⟩ := h
            exact ⟨Nat.lt_succ_self _, houter, i, hi, hs⟩
        | cons top inner =>
            rw [List.cons_append, List.cons.injEq] at h
            exact earlier h.2
      · by_cases he : i.flow = .loopEnd
        · rw [openBefore_end hi he] at h
          cases hopen : p.openBefore k with
          | nil =>
              rw [hopen] at h
              exact absurd h (by simp)
          | cons top rest =>
              rw [hopen, List.tail_cons] at h
              have hk : p.openBefore k = (top :: inner) ++ start :: outer := by
                rw [hopen, h, List.cons_append]
              exact earlier hk
        · rw [openBefore_plain hi hs he] at h
          exact earlier h

/-- The loops around the innermost open one are those that were open at its start. -/
theorem openBefore_outer {outer : List Nat} (hk : k ≤ p.size) (h : p.openBefore k = start :: outer) :
    p.openBefore start = outer := by
  have hsplit : p.openBefore k = [] ++ start :: outer := h
  exact (openBefore_split hk hsplit).2.1

theorem lt_of_mem_openBefore (hk : k ≤ p.size) (h : start ∈ p.openBefore k) : start < k := by
  obtain ⟨inner, outer, hsplit⟩ := List.append_of_mem h
  exact (openBefore_split hk hsplit).1

/-- The open loops are listed from the innermost one on. -/
theorem openBefore_pairwise (hk : k ≤ p.size) : (p.openBefore k).Pairwise (· > ·) := by
  induction k with
  | zero => exact .nil
  | succ k ih =>
      obtain ⟨i, hi⟩ := exists_get? hk
      have before := ih (Nat.le_of_lt hk)
      rw [openBefore_succ hi]
      split
      · exact before.cons fun _ hmem => lt_of_mem_openBefore (Nat.le_of_lt hk) hmem
      · exact before.tail
      · exact before

/-- Behind its start a loop is the innermost one open. -/
theorem openBefore_top {outer : List Nat} (hk : k ≤ p.size) (h : p.openBefore k = start :: outer) :
    p.openBefore (start + 1) = start :: outer := by
  have hsplit : p.openBefore k = [] ++ start :: outer := h
  obtain ⟨-, houter, i, hi, hf⟩ := openBefore_split hk hsplit
  rw [openBefore_start hi hf, houter]

/-! ### An exit belongs to the end that closes the loop

In one direction an end closes the loop on top and writes its exit.  The other direction
needs that exits come from nowhere else: whatever exit the whole scan has was written at
some end, and there the loop was on top.
-/

/-- An end closes the innermost open loop, and the exit of that loop is the position behind it. -/
theorem loopExit?_of_end {outer : List Nat} (hi : p.get? k = some i) (hf : i.flow = .loopEnd)
    (h : p.openBefore k = start :: outer) : p.loopExit? start = some (k + 1) := by
  have hk := lt_size_of_get? hi
  have hstart : start < k := lt_of_mem_openBefore (Nat.le_of_lt hk) (by simp [h])
  have hsize : start < (p.scanTo k).exits.size := by
    rw [scanTo, LoopScan.readAll_exits_size]
    simp only [LoopScan.initial, Array.size_replicate]
    omega
  have hread : p.scanTo (k + 1) = ⟨outer, (p.scanTo k).exits.setIfInBounds start (some (k + 1))⟩ := by
    rw [scanTo_succ hi, hf]
    simp only [LoopScan.read, scanTo_opened, h]
  have hclosed : start ∉ (p.scanTo (k + 1)).opened := by
    intro hmem
    rw [hread] at hmem
    have houter := openBefore_outer (Nat.le_of_lt hk) h
    exact Nat.lt_irrefl start (lt_of_mem_openBefore (by omega) (houter ▸ hmem))
  have hlength : (p.flows.take (k + 1)).length = k + 1 := by
    rw [List.length_take, length_flows]
    omega
  have hscan : loopScan p.flows = (p.scanTo (k + 1)).readAll (k + 1) (p.flows.drop (k + 1)) := by
    conv => lhs; rw [LoopScan.loopScan_eq, length_flows, ← List.take_append_drop (k + 1) p.flows]
    rw [LoopScan.readAll_append, hlength, Nat.zero_add]
    rfl
  rw [loopExit?_eq, hscan, LoopScan.readAll_exit?_of_not_mem _ hclosed (by omega), hread]
  simp [LoopScan.exit?, hsize]

/-- An exit lies behind an end at which the loop is the innermost one open. -/
theorem end_of_loopExit? {x : Nat} (h : p.loopExit? start = some x) :
    ∃ e i, x = e + 1 ∧ p.get? e = some i ∧ i.flow = .loopEnd ∧
      p.openBefore e = start :: p.openBefore start := by
  have along : ∀ k ≤ p.size, (p.scanTo k).exit? start = some x →
      ∃ e i, x = e + 1 ∧ p.get? e = some i ∧ i.flow = .loopEnd ∧
        p.openBefore e = start :: p.openBefore start := by
    intro k
    induction k with
    | zero =>
        intro _ hx
        rw [scanTo, List.take_zero] at hx
        exact absurd ((LoopScan.initial_exit? _ _).symm.trans hx) (by simp)
    | succ k ih =>
        intro hk hx
        obtain ⟨i, hi⟩ := exists_get? hk
        rw [scanTo_succ hi] at hx
        rcases LoopScan.read_exit? _ _ _ hx with hold | ⟨hf, ⟨outer, hopen⟩, rfl⟩
        · exact ih (Nat.le_of_lt hk) hold
        · rw [scanTo_opened] at hopen
          have houter := openBefore_outer (Nat.le_of_lt hk) hopen
          exact ⟨k, i, rfl, hi, hf, by rw [hopen, houter]⟩
  rw [loopExit?_eq, ← scanTo_size] at h
  exact along p.size (Nat.le_refl _) h

/-- Behind its end a loop leaves open what was open before its start. -/
theorem openBefore_loopExit? {x : Nat} (h : p.loopExit? start = some x) :
    p.openBefore x = p.openBefore start := by
  obtain ⟨e, i, rfl, hi, hf, hopen⟩ := end_of_loopExit? h
  rw [openBefore_end hi hf, hopen, List.tail_cons]

/-! ### The check finds what the scan leaves over

The check keeps a list of open loops of its own, next to that of the scan.  From any
position on the two go in step, so its findings can be read off `openBefore`: an end
astray where nothing is open, and at last the loops that are open at the end of the
tape.
-/

/-- What is wrong with one instruction as an end: no loop is open there. -/
def strayFinding? (p : Program κ α) (i : Instruction κ α) (position : Nat) : Option Finding :=
  if i.flow = .loopEnd ∧ p.openBefore position = [] then some (.strayLoopEnd position) else none

theorem strayFinding?_eq_some_iff {f : Finding} : p.strayFinding? i k = some f ↔
    i.flow = .loopEnd ∧ p.openBefore k = [] ∧ f = .strayLoopEnd k := by
  unfold strayFinding?
  split
  · rename_i hstray
    simp [hstray, eq_comm]
  · rename_i hmatched
    simp only [reduceCtorEq, false_iff]
    exact fun h => hmatched ⟨h.1, h.2.1⟩

theorem zipIdx_drop (hi : p.get? k = some i) :
    p.code.toList.zipIdx.drop k = (i, k) :: p.code.toList.zipIdx.drop (k + 1) := by
  have hk : k < p.code.toList.zipIdx.length := by
    rw [List.length_zipIdx, Array.length_toList]
    exact lt_size_of_get? hi
  have hitem : p.code.toList.zipIdx[k]? = some (i, k) := by
    rw [List.getElem?_zipIdx, Array.getElem?_toList, show p.code[k]? = some i from hi]
    simp
  rw [List.getElem?_eq_getElem hk, Option.some.injEq] at hitem
  rw [List.drop_eq_getElem_cons hk, hitem]

theorem flows_zipIdx_drop (hi : p.get? k = some i) :
    p.flows.zipIdx.drop k = (i.flow, k) :: p.flows.zipIdx.drop (k + 1) := by
  rw [flows, List.zipIdx_map, ← List.map_drop, ← List.map_drop, zipIdx_drop hi, List.map_cons]
  rfl

/-- From any position on, the scan of the check finds the ends astray first and at last the loops
that are still open. -/
theorem bracketFindings_drop (hk : k ≤ p.size) :
    bracketFindings (p.flows.zipIdx.drop k) (p.openBefore k)
      = (p.code.toList.zipIdx.drop k).filterMap (fun (i, position) => p.strayFinding? i position)
        ++ (p.openBefore p.size).reverse.map .unclosedLoop := by
  induction hn : p.size - k generalizing k with
  | zero =>
      obtain rfl : k = p.size := by omega
      rw [List.drop_of_length_le (by simp), List.drop_of_length_le (by simp [size])]
      rfl
  | succ n ih =>
      obtain ⟨i, hi⟩ := exists_get? (p := p) (k := k) (by omega)
      have rest := ih (k := k + 1) (by omega) (by omega)
      rw [openBefore_succ hi] at rest
      rw [flows_zipIdx_drop hi, zipIdx_drop hi, List.filterMap_cons]
      cases hf : i.flow with
      | loopEnd =>
          cases hopen : p.openBefore k with
          | nil => simp_all [bracketFindings, strayFinding?]
          | cons top outer => simp_all [bracketFindings, strayFinding?]
      | _ => simp_all [bracketFindings, strayFinding?]

/-- All the findings about brackets. -/
theorem bracketFindings_eq (p : Program κ α) :
    bracketFindings p.flows.zipIdx []
      = p.code.toList.zipIdx.filterMap (fun (i, position) => p.strayFinding? i position)
        ++ (p.openBefore p.size).reverse.map .unclosedLoop :=
  bracketFindings_drop (Nat.zero_le p.size)

end Program

end Barrage
