/-
Where a script goes next.

Which instruction runs next is decided by three fields of a cursor: the position and
the two stacks.  They are a `Control`, and `Program.next?` is what one instruction does
to them when it lets the script go on.  An interpreter has no say in it; all that it
can do is suspend the script or end it.

The control instructions are what moves control other than forward.  `Cursor.Leads`
says of each of them that it goes where `next?` says, or is refused.

What is on the two stacks always refers to the tape: an open loop to the instruction
that has opened it, a return address to the position after a call.  This is `OnTape`.
-/
import Barrage.Script.Dispatch
import Barrage.Proofs.Script.LoopScan

namespace Barrage

variable {κ α σ : Type} [Vocabulary κ] [Scalar α]

/-! ### Control states

`next?` leaves the limits of the two stacks out.  They are a condition of its own,
`Fits`, so that everything about where control goes is said once, and only a proof about
a refusal has to look at a limit.
-/

/-- The part of a cursor that decides which instruction runs next. -/
structure Control where
  ip : Nat
  loops : List LoopFrame
  calls : List Nat
  deriving DecidableEq

/-- Neither stack is deeper than it may get. -/
structure Control.Fits (s : Control) : Prop where
  loops : s.loops.length ≤ Limits.loopDepth
  calls : s.calls.length ≤ Limits.callDepth

/-- The start of every program. -/
def Control.start : Control :=
  ⟨0, [], []⟩

theorem Control.start_fits : Control.start.Fits :=
  ⟨Nat.zero_le _, Nat.zero_le _⟩

/-- Where the instruction at `s` leads when it lets the script go on, were the stacks unlimited. -/
def Program.next? (p : Program κ α) (s : Control) : Option Control :=
  match p.get? s.ip with
  | none => none
  | some i =>
    match i.flow with
    | .instant | .timed | .yielding => some { s with ip := s.ip + 1 }
    | .loopStart =>
      if i.count ≤ 0 then some { s with ip := (p.loopExit? s.ip).getD p.size }
      else some { s with ip := s.ip + 1, loops := ⟨s.ip, i.count⟩ :: s.loops }
    | .loopEnd =>
      match s.loops with
      | [] => some { s with ip := s.ip + 1 }
      | top :: rest =>
        if 0 < top.remaining - 1 then
          some { s with
            ip := top.start + 1, loops := { top with remaining := top.remaining - 1 } :: rest }
        else some { s with ip := s.ip + 1, loops := rest }
    | .call =>
      (p.position? i.label).map fun target =>
        { s with ip := target, calls := (s.ip + 1) :: s.calls }
    | .ret =>
      match s.calls with
      | [] => none
      | back :: rest => some { s with ip := back, calls := rest }
    | .stop => none

/-- The ways in which control moves, one for each thing that an instruction can do to it. -/
inductive Program.Moves (p : Program κ α) (s : Control) : Control → Prop
  | pass {i : Instruction κ α} (hi : p.get? s.ip = some i)
      (hf : i.flow = .instant ∨ i.flow = .timed ∨ i.flow = .yielding) :
      Moves p s { s with ip := s.ip + 1 }
  | skip {i : Instruction κ α} (hi : p.get? s.ip = some i) (hf : i.flow = .loopStart)
      (none : i.count ≤ 0) : Moves p s { s with ip := (p.loopExit? s.ip).getD p.size }
  | enter {i : Instruction κ α} (hi : p.get? s.ip = some i) (hf : i.flow = .loopStart)
      (some : ¬ i.count ≤ 0) :
      Moves p s { s with ip := s.ip + 1, loops := ⟨s.ip, i.count⟩ :: s.loops }
  | stray {i : Instruction κ α} (hi : p.get? s.ip = some i) (hf : i.flow = .loopEnd)
      (hl : s.loops = []) : Moves p s { s with ip := s.ip + 1 }
  | again {i : Instruction κ α} {top : LoopFrame} {rest : List LoopFrame}
      (hi : p.get? s.ip = some i) (hf : i.flow = .loopEnd) (hl : s.loops = top :: rest)
      (more : 0 < top.remaining - 1) :
      Moves p s { s with
        ip := top.start + 1, loops := { top with remaining := top.remaining - 1 } :: rest }
  | close {i : Instruction κ α} {top : LoopFrame} {rest : List LoopFrame}
      (hi : p.get? s.ip = some i) (hf : i.flow = .loopEnd) (hl : s.loops = top :: rest)
      (last : ¬ 0 < top.remaining - 1) : Moves p s { s with ip := s.ip + 1, loops := rest }
  | call {i : Instruction κ α} {target : Nat} (hi : p.get? s.ip = some i) (hf : i.flow = .call)
      (htarget : p.position? i.label = some target) :
      Moves p s { s with ip := target, calls := (s.ip + 1) :: s.calls }
  | ret {i : Instruction κ α} {back : Nat} {rest : List Nat} (hi : p.get? s.ip = some i)
      (hf : i.flow = .ret) (hc : s.calls = back :: rest) :
      Moves p s { s with ip := back, calls := rest }

theorem Program.moves_of_next? {p : Program κ α} {s s' : Control} (h : p.next? s = some s') :
    p.Moves s s' := by
  cases hi : p.get? s.ip with
  | none => simp [next?, hi] at h
  | some i =>
      cases hf : i.flow with
      | instant =>
          simp only [next?, hi, hf, Option.some.injEq] at h
          exact h ▸ .pass hi (Or.inl hf)
      | timed =>
          simp only [next?, hi, hf, Option.some.injEq] at h
          exact h ▸ .pass hi (Or.inr (Or.inl hf))
      | yielding =>
          simp only [next?, hi, hf, Option.some.injEq] at h
          exact h ▸ .pass hi (Or.inr (Or.inr hf))
      | loopStart =>
          simp only [next?, hi, hf] at h
          split at h <;> rename_i hn <;> cases h
          · exact .skip hi hf hn
          · exact .enter hi hf hn
      | loopEnd =>
          simp only [next?, hi, hf] at h
          split at h
          · rename_i hl
            cases h
            exact .stray hi hf hl
          · rename_i top rest hl
            split at h <;> rename_i hmore <;> cases h
            · exact .again hi hf hl hmore
            · exact .close hi hf hl hmore
      | call =>
          simp only [next?, hi, hf, Option.map_eq_some_iff] at h
          obtain ⟨target, htarget, rfl⟩ := h
          exact .call hi hf htarget
      | ret =>
          simp only [next?, hi, hf] at h
          split at h
          · cases h
          · rename_i back rest hc
            cases h
            exact .ret hi hf hc
      | stop => simp [next?, hi, hf] at h

theorem Program.Moves.next? {p : Program κ α} {s s' : Control} (h : p.Moves s s') :
    p.next? s = some s' := by
  cases h with
  | pass hi hf => rcases hf with hf | hf | hf <;> simp only [Program.next?, hi, hf]
  | skip hi hf hn => simp only [Program.next?, hi, hf, if_pos hn]
  | enter hi hf hn => simp only [Program.next?, hi, hf, if_neg hn]
  | stray hi hf hl => simp only [Program.next?, hi, hf, hl]
  | again hi hf hl hmore => simp only [Program.next?, hi, hf, hl, if_pos hmore]
  | close hi hf hl hlast => simp only [Program.next?, hi, hf, hl, if_neg hlast]
  | call hi hf htarget => simp only [Program.next?, hi, hf, htarget, Option.map_some]
  | ret hi hf hc => simp only [Program.next?, hi, hf, hc]

/-! ### Counting the passes of a loop

A count is a signed number of 32 bits, and the dispatch loop takes one from it as long
as more than one is left.  These lemmas turn that into a natural number of passes; the
subtraction does not overflow because it is only done on counts that are positive.
-/

private theorem toInt_sub_one {n : Int32} (hpos : 1 ≤ n) : (n - 1).toInt = n.toInt - 1 := by
  have hlow : (1 : Int) ≤ n.toInt := Int32.le_iff_toInt_le.mp hpos
  have hhigh := n.toInt_lt
  rw [Int32.toInt_sub, show (1 : Int32).toInt = 1 from rfl]
  exact Int.bmod_eq_of_le (by omega) (by omega)

/-- A count that is not positive is no passes. -/
theorem passes_of_none {n : Int32} (h : n ≤ 0) : n.toNatClampNeg = 0 := by
  have hle : n.toInt ≤ (0 : Int) := Int32.le_iff_toInt_le.mp h
  simp only [Int32.toNatClampNeg]
  omega

theorem exists_passes {n : Int32} (hpos : 1 ≤ n) : ∃ k, n.toNatClampNeg = k + 1 := by
  have hlow : (1 : Int) ≤ n.toInt := Int32.le_iff_toInt_le.mp hpos
  refine ⟨n.toNatClampNeg - 1, ?_⟩
  simp only [Int32.toNatClampNeg]
  omega

theorem passes_of_more {n : Int32} (hpos : 1 ≤ n) (hmore : 0 < n - 1) :
    n.toNatClampNeg = (n - 1).toNatClampNeg + 1 := by
  have hsub := toInt_sub_one hpos
  have hleft : (0 : Int) < (n - 1).toInt := Int32.lt_iff_toInt_lt.mp hmore
  simp only [Int32.toNatClampNeg]
  omega

theorem passes_of_last {n : Int32} (hpos : 1 ≤ n) (hlast : ¬ 0 < n - 1) :
    n.toNatClampNeg = 1 := by
  have hsub := toInt_sub_one hpos
  have hlow : (1 : Int) ≤ n.toInt := Int32.le_iff_toInt_le.mp hpos
  have hleft : ¬ (0 : Int) < (n - 1).toInt := fun h => hlast (Int32.lt_iff_toInt_lt.mpr h)
  simp only [Int32.toNatClampNeg]
  omega

/-- Induction on the passes that a loop has left, the last one first. -/
theorem passes_induction {P : Int32 → Nat → Prop}
    (last : ∀ n, 1 ≤ n → ¬ 0 < n - 1 → P n 1)
    (more : ∀ n k, 1 ≤ n → 0 < n - 1 → P (n - 1) k → P n (k + 1)) {n : Int32} (hpos : 1 ≤ n) :
    P n n.toNatClampNeg := by
  obtain ⟨k, hk⟩ := exists_passes hpos
  rw [hk]
  induction k generalizing n with
  | zero =>
      have hlast : ¬ 0 < n - 1 := by
        intro hmore
        obtain ⟨k, hleft⟩ := exists_passes (n := n - 1) (by grind)
        rw [passes_of_more hpos hmore] at hk
        omega
      exact last n hpos hlast
  | succ k ih =>
      have hmore : 0 < n - 1 := by
        refine Classical.byContradiction fun hlast => ?_
        rw [passes_of_last hpos hlast] at hk
        omega
      rw [passes_of_more hpos hmore] at hk
      exact more n (k + 1) hpos hmore (ih (by grind) (by omega))

/-! ### What the stacks hold is on the tape

A position on a stack could be anything as far as its type goes.  It was put there by an
instruction of the same tape, though, and moves keep this: a loop is only ever popped or
counted down, and a return address is only ever used up.
-/

/-- The frame of a loop that this program has, with a number of passes that it can have left. -/
def LoopFrame.Of (p : Program κ α) (f : LoopFrame) : Prop :=
  ∃ i, p.get? f.start = some i ∧ i.flow = .loopStart ∧ 1 ≤ f.remaining ∧ f.remaining ≤ i.count

/-- The position after a call of this program. -/
def Program.IsReturn (p : Program κ α) (back : Nat) : Prop :=
  ∃ i, 1 ≤ back ∧ p.get? (back - 1) = some i ∧ i.flow = .call

/-- Control is on the tape and so is everything that the stacks refer to. -/
structure Control.OnTape (p : Program κ α) (s : Control) : Prop where
  ip : s.ip ≤ p.size
  loops : ∀ f ∈ s.loops, f.Of p
  calls : ∀ back ∈ s.calls, p.IsReturn back

theorem LoopFrame.Of.start_lt {p : Program κ α} {f : LoopFrame} (h : f.Of p) :
    f.start < p.size := by
  obtain ⟨i, hi, -⟩ := h
  exact Program.lt_size_of_get? hi

theorem Program.IsReturn.le_size {p : Program κ α} {back : Nat} (h : p.IsReturn back) :
    back ≤ p.size := by
  obtain ⟨i, hpos, hi, -⟩ := h
  have := lt_size_of_get? hi
  omega

theorem Control.start_onTape (p : Program κ α) : Control.start.OnTape p :=
  ⟨Nat.zero_le _, by simp [start], by simp [start]⟩

/-- A pass that is left over leaves a number of passes that the loop can have. -/
private theorem remaining_bounds {n m : Int32} (hle : n ≤ m) (hmore : 0 < n - 1) (hpos : 1 ≤ n) :
    1 ≤ n - 1 ∧ n - 1 ≤ m := by
  grind

theorem Program.Moves.onTape {p : Program κ α} {s s' : Control} (h : p.Moves s s')
    (hs : s.OnTape p) : s'.OnTape p := by
  cases h with
  | pass hi _ => exact ⟨lt_size_of_get? hi, hs.loops, hs.calls⟩
  | skip hi _ _ => exact ⟨(loopExit?_getD_bounds (lt_size_of_get? hi)).2, hs.loops, hs.calls⟩
  | @enter i hi hf hsome =>
      refine ⟨lt_size_of_get? hi, ?_, hs.calls⟩
      intro f hmem
      rcases List.mem_cons.mp hmem with rfl | hmem
      · exact ⟨i, hi, hf, by grind, Int32.le_refl _⟩
      · exact hs.loops f hmem
  | stray hi _ _ => exact ⟨lt_size_of_get? hi, hs.loops, hs.calls⟩
  | @again i top rest hi _ hl more =>
      obtain ⟨j, hj, hjf, hpos, hle⟩ := hs.loops top (by simp [hl])
      refine ⟨lt_size_of_get? hj, ?_, hs.calls⟩
      intro f hmem
      rcases List.mem_cons.mp hmem with rfl | hmem
      · obtain ⟨hpos', hle'⟩ := remaining_bounds hle more hpos
        exact ⟨j, hj, hjf, hpos', hle'⟩
      · exact hs.loops f (by simp [hl, hmem])
  | @close i top rest hi _ hl _ =>
      exact ⟨lt_size_of_get? hi, fun f hmem => hs.loops f (by simp [hl, hmem]), hs.calls⟩
  | @call i target hi hf htarget =>
      refine ⟨position?_le htarget, hs.loops, ?_⟩
      intro back hmem
      rcases List.mem_cons.mp hmem with rfl | hmem
      · exact ⟨i, by omega, hi, hf⟩
      · exact hs.calls back hmem
  | @ret i back rest _ _ hc =>
      refine ⟨(hs.calls back (by simp [hc])).le_size, hs.loops, ?_⟩
      exact fun r hmem => hs.calls r (by simp [hc, hmem])

/-! ### The control part of a cursor -/

namespace Cursor

def control (c : Cursor κ α) : Control :=
  ⟨c.ip, c.loops, c.calls⟩

/-- The same cursor at another point of control. -/
def goto (c : Cursor κ α) (s : Control) : Cursor κ α :=
  { c with ip := s.ip, loops := s.loops, calls := s.calls }

@[simp] theorem control_ip (c : Cursor κ α) : c.control.ip = c.ip := rfl
@[simp] theorem control_loops (c : Cursor κ α) : c.control.loops = c.loops := rfl
@[simp] theorem control_calls (c : Cursor κ α) : c.control.calls = c.calls := rfl

@[simp] theorem goto_program (c : Cursor κ α) (s : Control) : (c.goto s).program = c.program := rfl

/-- What a control instruction other than the end of the script does to the cursor. -/
def obey (c : Cursor κ α) (i : Instruction κ α) : Except ScriptError (Cursor κ α) :=
  match i.flow with
  | .loopStart => c.startLoop i.count
  | .loopEnd => .ok c.endLoop
  | .call => c.enter i.label
  | .ret => c.leave
  | .instant | .timed | .yielding | .stop => .ok c

end Cursor

/-- The control states that a program can come to, from its start and within the limits. -/
inductive Program.CanReach (p : Program κ α) : Control → Prop
  | start : CanReach p .start
  | next {s s' : Control} (h : CanReach p s) (hnext : p.next? s = some s') (fits : s'.Fits) :
      CanReach p s'

theorem Program.CanReach.fits {p : Program κ α} {s : Control} (h : p.CanReach s) : s.Fits := by
  cases h with
  | start => exact Control.start_fits
  | next _ _ fits => exact fits

theorem Program.CanReach.onTape {p : Program κ α} {s : Control} (h : p.CanReach s) :
    s.OnTape p := by
  induction h with
  | start => exact Control.start_onTape p
  | next _ hnext _ ih => exact (moves_of_next? hnext).onTape ih

/-! ### Control instructions go where `next?` says

Each of the four is looked at on its own here and nowhere else.  `Leads` says of the new
cursor that only its control has changed, so proofs about whole ticks can forget which
instruction it was.
-/

/-- A flow that moves the script without a handler and without ending it. -/
def Flow.Jumps (f : Flow) : Prop :=
  f = .loopStart ∨ f = .loopEnd ∨ f = .call ∨ f = .ret

/-- What jumps is never held until a later tick. -/
theorem Flow.Jumps.not_held {f : Flow} (h : f.Jumps) : f ≠ .yielding ∧ f ≠ .timed := by
  rcases h with rfl | rfl | rfl | rfl <;> simp

namespace Cursor

/-- Control leads from `c` to `c'`, and nothing else has changed. -/
structure Leads (c c' : Cursor κ α) : Prop where
  next : c.program.next? c.control = some c'.control
  same : c' = c.goto c'.control
  fits : c.control.Fits → c'.control.Fits

variable {c c' : Cursor κ α} {i : Instruction κ α}

theorem startLoop_leads (hi : c.program.get? c.ip = some i) (hf : i.flow = .loopStart)
    (h : c.startLoop i.count = .ok c') : c.Leads c' := by
  simp only [startLoop] at h
  split at h
  · rename_i hn
    simp only [Except.ok.injEq] at h
    subst h
    refine ⟨?_, rfl, fun fits => ⟨fits.loops, fits.calls⟩⟩
    simp [Program.next?, hi, hf, hn, control]
  · rename_i hn
    split at h
    · exact absurd h (by simp)
    · rename_i hroom
      simp only [Except.ok.injEq] at h
      subst h
      refine ⟨?_, rfl, fun fits => ⟨?_, fits.calls⟩⟩
      · simp [Program.next?, hi, hf, hn, control]
      · simp only [control_loops, List.length_cons]
        omega

theorem endLoop_leads (hi : c.program.get? c.ip = some i) (hf : i.flow = .loopEnd) :
    c.Leads c.endLoop := by
  cases hl : c.loops with
  | nil =>
      refine ⟨?_, ?_, fun fits => ⟨?_, ?_⟩⟩
      · simp [Program.next?, hi, hf, endLoop, control, hl]
      · simp [endLoop, goto, hl]
      · simp [endLoop, hl]
      · simpa [endLoop, hl] using fits.calls
  | cons top rest =>
      by_cases hmore : 0 < top.remaining - 1
      · refine ⟨?_, ?_, fun fits => ⟨?_, ?_⟩⟩
        · simp [Program.next?, hi, hf, endLoop, control, hl, hmore]
        · simp [endLoop, goto, hl, hmore]
        · simpa [endLoop, hl, hmore] using fits.loops
        · simpa [endLoop, hl, hmore] using fits.calls
      · refine ⟨?_, ?_, fun fits => ⟨?_, ?_⟩⟩
        · simp [Program.next?, hi, hf, endLoop, control, hl, hmore]
        · simp [endLoop, goto, hl, hmore]
        · have := fits.loops
          simp only [control_loops, hl, List.length_cons] at this
          simp only [endLoop, hl, hmore, if_false, control_loops]
          omega
        · simpa [endLoop, hl, hmore] using fits.calls

theorem enter_leads (hi : c.program.get? c.ip = some i) (hf : i.flow = .call)
    (h : c.enter i.label = .ok c') : c.Leads c' := by
  simp only [enter] at h
  split at h
  · exact absurd h (by simp)
  · rename_i target htarget
    split at h
    · exact absurd h (by simp)
    · rename_i hroom
      simp only [Except.ok.injEq] at h
      subst h
      refine ⟨?_, rfl, fun fits => ⟨fits.loops, ?_⟩⟩
      · simp [Program.next?, hi, hf, htarget, control]
      · simp only [control_calls, List.length_cons]
        omega

theorem leave_leads (hi : c.program.get? c.ip = some i) (hf : i.flow = .ret)
    (h : c.leave = .ok c') : c.Leads c' := by
  simp only [leave] at h
  split at h
  · exact absurd h (by simp)
  · rename_i back rest hcalls
    simp only [Except.ok.injEq] at h
    subst h
    refine ⟨?_, rfl, fun fits => ⟨fits.loops, ?_⟩⟩
    · simp [Program.next?, hi, hf, hcalls, control]
    · have := fits.calls
      simp only [control_calls, hcalls, List.length_cons] at this ⊢
      omega

/-- A control instruction leads where `next?` says, unless it is refused. -/
theorem obey_leads (hi : c.program.get? c.ip = some i) (hf : i.flow.Jumps)
    (h : c.obey i = .ok c') : c.Leads c' := by
  rcases hf with hf | hf | hf | hf <;> simp only [obey, hf] at h
  · exact startLoop_leads hi hf h
  · simp only [Except.ok.injEq] at h
    subst h
    exact endLoop_leads hi hf
  · exact enter_leads hi hf h
  · exact leave_leads hi hf h

end Cursor

end Barrage
