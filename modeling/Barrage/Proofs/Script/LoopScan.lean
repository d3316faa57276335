/-
Where the scan for loop brackets sends a loop that is not entered.

The scan reads a tape from left to right, so what it knows after a stretch of the tape
is a fold over that stretch; `readAll` is this fold from any scan and any position.
The only fact about it that every other proof needs is that an exit lies behind the
loop that it belongs to and not behind the end of the tape.
-/
import Barrage.Script.Program

namespace Barrage

namespace LoopScan

/-- Reads a stretch of tape that begins at position `k`. -/
def readAll (s : LoopScan) (k : Nat) (flows : List Flow) : LoopScan :=
  (flows.zipIdx k).foldl (fun s (flow, i) => s.read i flow) s

@[simp] theorem readAll_cons (s : LoopScan) (k : Nat) (flow : Flow) (rest : List Flow) :
    s.readAll k (flow :: rest) = (s.read k flow).readAll (k + 1) rest := rfl

theorem readAll_append (s : LoopScan) (k : Nat) (first second : List Flow) :
    s.readAll k (first ++ second) = (s.readAll k first).readAll (k + first.length) second := by
  induction first generalizing s k with
  | nil => rfl
  | cons flow rest ih =>
      simp only [List.cons_append, readAll_cons, ih, List.length_cons]
      congr 1
      omega

/-- The exit that the scan has found for the loop that starts at `start`. -/
def exit? (s : LoopScan) (start : Nat) : Option Nat :=
  s.exits[start]?.join

/-- Reading adds an exit at an end only, for the innermost open loop. -/
theorem read_exit? (s : LoopScan) (k : Nat) (flow : Flow) {start x : Nat}
    (h : (s.read k flow).exit? start = some x) :
    s.exit? start = some x ∨
      flow = .loopEnd ∧ (∃ outer, s.opened = start :: outer) ∧ x = k + 1 := by
  unfold read at h
  split at h
  · exact Or.inl h
  · split at h
    · exact Or.inl h
    · rename_i top rest hopened
      by_cases heq : top = start
      · subst heq
        refine Or.inr ⟨rfl, ⟨rest, hopened⟩, ?_⟩
        by_cases hlt : top < s.exits.size
        · simpa [exit?, Array.getElem?_setIfInBounds, hlt, eq_comm] using h
        · simp [exit?, hlt] at h
      · refine Or.inl ?_
        simpa [exit?, Array.getElem?_setIfInBounds, heq] using h
  · exact Or.inl h

/-- What the scan knows after the first `k` instructions points into them. -/
structure Within (s : LoopScan) (k : Nat) : Prop where
  opened : ∀ start ∈ s.opened, start < k
  exits : ∀ start x, s.exit? start = some x → start < x ∧ x ≤ k

/-- Reading opens no loop but the one that starts there. -/
theorem mem_read_opened {s : LoopScan} {k : Nat} {flow : Flow} {start : Nat}
    (h : start ∈ (s.read k flow).opened) : start = k ∨ start ∈ s.opened := by
  unfold read at h
  split at h
  · simpa using h
  · split at h
    · exact Or.inr h
    · rename_i top rest hopened
      exact Or.inr (by simp only [hopened]; exact List.mem_cons_of_mem _ h)
  · exact Or.inr h

theorem read_within {s : LoopScan} {k : Nat} (h : s.Within k) (flow : Flow) :
    (s.read k flow).Within (k + 1) := by
  refine ⟨?_, ?_⟩
  · intro start hstart
    rcases mem_read_opened hstart with rfl | hmem
    · exact Nat.lt_succ_self _
    · exact Nat.lt_succ_of_lt (h.opened start hmem)
  · intro start x hx
    rcases read_exit? s k flow hx with hold | ⟨-, ⟨outer, hopened⟩, rfl⟩
    · obtain ⟨hlt, hle⟩ := h.exits start x hold
      exact ⟨hlt, Nat.le_succ_of_le hle⟩
    · exact ⟨Nat.lt_succ_of_lt (h.opened start (by simp [hopened])), Nat.le_refl _⟩

theorem readAll_within (flows : List Flow) :
    ∀ {s : LoopScan} {k : Nat}, s.Within k → (s.readAll k flows).Within (k + flows.length) := by
  induction flows with
  | nil => intro s k h; exact h
  | cons flow rest ih =>
      intro s k h
      have := ih (read_within h flow)
      rw [List.length_cons, Nat.add_comm rest.length 1, ← Nat.add_assoc]
      exact this

/-! ### An exit is written once

An exit is found at the end that closes the loop, and from then on the loop is not open.
Nothing later can write it again, so what the scan says of a loop at its end is what it
says when it has read the whole tape.
-/

theorem read_exits_size (s : LoopScan) (k : Nat) (flow : Flow) :
    (s.read k flow).exits.size = s.exits.size := by
  unfold read
  split
  · rfl
  · split
    · rfl
    · exact Array.size_setIfInBounds
  · rfl

theorem readAll_exits_size (flows : List Flow) (s : LoopScan) (k : Nat) :
    (s.readAll k flows).exits.size = s.exits.size := by
  induction flows generalizing s k with
  | nil => rfl
  | cons flow rest ih => rw [readAll_cons, ih, read_exits_size]

theorem read_exit?_of_not_mem {s : LoopScan} {start : Nat} (h : start ∉ s.opened) (k : Nat)
    (flow : Flow) : (s.read k flow).exit? start = s.exit? start := by
  unfold read
  split
  · rfl
  · split
    · rfl
    · rename_i top rest hopened
      have hne : top ≠ start := by
        intro heq
        exact h (by rw [hopened, heq]; exact List.mem_cons_self)
      simp [exit?, hne]
  · rfl

/-- The exit of a loop that is not open stays as it is. -/
theorem readAll_exit?_of_not_mem {start : Nat} (flows : List Flow) {s : LoopScan} {k : Nat}
    (h : start ∉ s.opened) (hlt : start < k) : (s.readAll k flows).exit? start = s.exit? start := by
  induction flows generalizing s k with
  | nil => rfl
  | cons flow rest ih =>
      have hnot : start ∉ (s.read k flow).opened := by
        intro hmem
        rcases mem_read_opened hmem with heq | hmem
        · omega
        · exact h hmem
      rw [readAll_cons, ih hnot (Nat.lt_succ_of_lt hlt), read_exit?_of_not_mem h]

/-! ### Exits lie on the tape

`Within` is kept from the empty scan to the last instruction.  The bounds that come of
it are what every other proof needs of the scan: a loop that is not entered goes
forward, and not further than to the end of the tape.
-/

/-- The scan of a tape of `n` instructions before it has read any. -/
def initial (n : Nat) : LoopScan :=
  ⟨[], Array.replicate n none⟩

theorem initial_exit? (n start : Nat) : (initial n).exit? start = none := by
  simp only [exit?, initial, Array.getElem?_replicate]
  split <;> rfl

theorem initial_within (n : Nat) : (initial n).Within 0 := by
  refine ⟨by simp [initial], ?_⟩
  intro start x hx
  rw [initial_exit?] at hx
  exact absurd hx (by simp)

theorem loopScan_eq (flows : List Flow) : loopScan flows = (initial flows.length).readAll 0 flows :=
  rfl

end LoopScan

namespace Program

variable {κ α : Type} [Vocabulary κ] [Scalar α]

@[simp] theorem length_flows (p : Program κ α) : p.flows.length = p.size := by
  simp [flows, size]

theorem loopExit?_eq (p : Program κ α) (start : Nat) :
    p.loopExit? start = (loopScan p.flows).exit? start := by
  unfold loopExit?
  rw [p.loopExits_eq]
  rfl

/-- The exit of a loop lies behind its start and not behind the end of the tape. -/
theorem loopExit?_bounds {p : Program κ α} {start x : Nat} (h : p.loopExit? start = some x) :
    start < x ∧ x ≤ p.size := by
  rw [loopExit?_eq, LoopScan.loopScan_eq] at h
  have := (LoopScan.readAll_within p.flows (LoopScan.initial_within p.flows.length)).exits start x h
  simpa using this

theorem lt_size_of_get? {p : Program κ α} {ip : Nat} {i : Instruction κ α}
    (h : p.get? ip = some i) : ip < p.size := by
  simp only [get?, Array.getElem?_eq_some_iff] at h
  exact h.1

/-- Where a loop that is not entered leads lies behind it and not behind the end of the tape. -/
theorem loopExit?_getD_bounds {p : Program κ α} {ip : Nat} (h : ip < p.size) :
    ip < (p.loopExit? ip).getD p.size ∧ (p.loopExit? ip).getD p.size ≤ p.size := by
  cases hx : p.loopExit? ip with
  | none => exact ⟨h, Nat.le_refl _⟩
  | some x => exact loopExit?_bounds hx

/-- A label marks a position of the tape or its end. -/
theorem position?_le {p : Program κ α} {label : String} {target : Nat}
    (h : p.position? label = some target) : target ≤ p.size := by
  unfold position? at h
  have hmem : (label, target) ∈ p.labels := by
    obtain ⟨l₁, l₂, hl, -⟩ := List.lookup_eq_some_iff.mp h
    rw [hl]
    simp
  exact p.labels_le _ hmem

end Program

end Barrage
