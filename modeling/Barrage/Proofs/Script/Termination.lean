/-
Every tick ends.

The guard against runaway scripts is no reason for that: each timed instruction that is
left behind clears its counts.  Nor is the depth of the stacks, or the number of passes
that loops have left, because the two stacks are not nested in each other.  A loop that
is opened inside a subroutine is still open when the subroutine returns, and its end may
then be found outside, at another depth of calls, and send the script back inside.

What ends every run is an order on control states in which the calls come first.  Read
the return addresses and the position as the digits of a number, the outermost first:
`weight` is what is left to that number.  Every move lowers it but one, the jump back
to the start of an open loop, and for that jump there are two cases.

  * From the start of its body the loop comes to an end of its own before it leaves the
    subroutine that it is in.  Then all its passes do, one after the other, and the
    loop as a whole is one move that lowers the weight.
  * It leaves the subroutine first, and stays open.  Then it does the same whenever it
    is sent back, at whatever depth, and returning from there lowers the weight.

`Fate` is this distinction for a stretch of a run, and it is decided by induction on the
room for further loops and on the weight.
-/
import Mathlib.Algebra.Group.Nat.Defs
import Mathlib.Logic.Relation
import Mathlib.Order.WellFounded
import Barrage.Proofs.Script.Tick

namespace Barrage

variable {κ α σ : Type} [Vocabulary κ] [Scalar α]

namespace Program

variable {p : Program κ α}

/-! ### Runs of control

Runs are those of `next?`, cut off where a stack is too deep.  Whether a handler would
suspend the script on the way is left out: what ends without that ends with it.
-/

/-- `s'` follows `s` in a run whose stacks keep within the limits. -/
structure Follows (p : Program κ α) (s' s : Control) : Prop where
  next : p.next? s = some s'
  fits : s.Fits
  fits' : s'.Fits

/-- No run goes on forever from here. -/
def Ends (p : Program κ α) (s : Control) : Prop :=
  Acc p.Follows s

/-- Control comes from one state to another, were the stacks unlimited. -/
def Comes (p : Program κ α) : Control → Control → Prop :=
  Relation.ReflTransGen fun s s' => p.next? s = some s'

theorem Comes.refl (s : Control) : p.Comes s s :=
  Relation.ReflTransGen.refl

theorem Moves.comes {s s' : Control} (h : p.Moves s s') : p.Comes s s' :=
  Relation.ReflTransGen.single h.next?

theorem Comes.trans {s₁ s₂ s₃ : Control} (h : p.Comes s₁ s₂) (h' : p.Comes s₂ s₃) :
    p.Comes s₁ s₃ :=
  Relation.ReflTransGen.trans h h'

theorem ends_of_not_fits {s : Control} (h : ¬ s.Fits) : p.Ends s :=
  Acc.intro s fun _ hs => absurd hs.fits h

theorem ends_of_next {s s' : Control} (h : p.next? s = some s') (he : p.Ends s') : p.Ends s := by
  refine Acc.intro s fun s'' hs => ?_
  rw [hs.next, Option.some.injEq] at h
  rw [h]
  exact he

theorem ends_of_none {s : Control} (h : p.next? s = none) : p.Ends s := by
  refine Acc.intro s fun s' hs => ?_
  rw [hs.next] at h
  exact absurd h (by simp)

theorem ends_of_comes {s s' : Control} (h : p.Comes s s') (he : p.Ends s') : p.Ends s := by
  induction h using Relation.ReflTransGen.head_induction_on with
  | refl => exact he
  | head hnext _ ih => exact ends_of_next hnext ih

/-! ### The outermost calls count most

The weight is a number in a base larger than any position, with one digit for each depth
of calls that the limit allows.  What the callers still have of the tape outweighs all
that can happen in the subroutines called on top, so coming further at an outer depth
lowers it, whatever has been called on the way.
-/

/-- How much of the tape is left to a position and the return addresses below it, the outermost
counting most. -/
def weight (p : Program κ α) : List Nat → Nat
  | [] => 0
  | ip :: calls =>
    p.weight calls + (p.size + 1 - ip) * (p.size + 2) ^ (Limits.callDepth - calls.length)

/-- The outermost of a position and the return addresses below it. -/
def outermost : Nat → List Nat → Nat
  | ip, [] => ip
  | _, back :: rest => outermost back rest

theorem outermost_append (ip : Nat) (first second : List Nat) :
    outermost ip (first ++ second) = outermost (outermost ip first) second := by
  induction first generalizing ip with
  | nil => rfl
  | cons back rest ih => exact ih back

/-- Coming further at some depth of calls outweighs whatever is called on top of it. -/
theorem weight_add_le {ip x : Nat} (extra calls : List Nat) (h : ip < outermost x extra)
    (hip : ip ≤ p.size) (hroom : (extra ++ calls).length ≤ Limits.callDepth) :
    p.weight (x :: (extra ++ calls)) +
        (p.size + 2) ^ (Limits.callDepth - (extra ++ calls).length)
      ≤ p.weight (ip :: calls) := by
  induction extra generalizing x with
  | nil =>
      have hdigit : p.size + 1 - x + 1 ≤ p.size + 1 - ip := by
        simp only [outermost] at h
        omega
      have := Nat.mul_le_mul_right ((p.size + 2) ^ (Limits.callDepth - calls.length)) hdigit
      simp only [weight, List.nil_append]
      rw [Nat.add_mul, Nat.one_mul] at this
      omega
  | cons back rest ih =>
      have hrest := ih h (by
        simp only [List.cons_append, List.length_cons] at hroom
        omega)
      have hpow : (p.size + 2) ^ (Limits.callDepth - (rest ++ calls).length)
          = (p.size + 2) ^ (Limits.callDepth - (back :: rest ++ calls).length) * (p.size + 2) := by
        rw [← Nat.pow_succ]
        congr 1
        simp only [List.cons_append, List.length_cons] at hroom ⊢
        omega
      have hdigit : p.size + 1 - x + 1 ≤ p.size + 2 := by omega
      have := Nat.mul_le_mul_left
        ((p.size + 2) ^ (Limits.callDepth - (back :: rest ++ calls).length)) hdigit
      rw [← hpow, Nat.mul_add, Nat.mul_one, Nat.mul_comm] at this
      simp only [weight, List.cons_append] at hrest this ⊢
      omega

theorem weight_lt {ip x : Nat} (extra calls : List Nat) (h : ip < outermost x extra)
    (hip : ip ≤ p.size) (hroom : (extra ++ calls).length ≤ Limits.callDepth) :
    p.weight (x :: (extra ++ calls)) < p.weight (ip :: calls) := by
  have hle := weight_add_le extra calls h hip hroom
  have hpos : 0 < (p.size + 2) ^ (Limits.callDepth - (extra ++ calls).length) :=
    Nat.pow_pos (by omega)
  omega

/-- Returning from a call lowers the weight. -/
theorem weight_return_lt {ip : Nat} (back : Nat) (calls : List Nat) (hip : ip ≤ p.size) :
    p.weight (back :: calls) < p.weight (ip :: back :: calls) := by
  have hpos : 0 < (p.size + 1 - ip)
      * (p.size + 2) ^ (Limits.callDepth - (back :: calls).length) :=
    Nat.mul_pos (by omega) (Nat.pow_pos (by omega))
  rw [weight.eq_2 p ip]
  omega

/-- A weight that is no larger has come at least as far at the outermost depth. -/
theorem le_outermost {ip x : Nat} (calls : List Nat) (hip : ip ≤ p.size)
    (h : p.weight (x :: calls) ≤ p.weight [ip]) : ip ≤ outermost x calls := by
  have hle : ∀ (x : Nat) (calls : List Nat),
      (p.size + 1 - outermost x calls) * (p.size + 2) ^ Limits.callDepth
        ≤ p.weight (x :: calls) := by
    intro x calls
    induction calls generalizing x with
    | nil => simp [weight, outermost]
    | cons back rest ih =>
        have := ih back
        rw [weight]
        exact Nat.le_add_right_of_le this
  have hboth := Nat.le_trans (hle x calls) h
  have hpos : 0 < (p.size + 2) ^ Limits.callDepth := Nat.pow_pos (by omega)
  simp only [weight, List.length_nil, Nat.sub_zero, Nat.zero_add] at hboth
  have := Nat.le_of_mul_le_mul_right hboth hpos
  omega

/-! ### What one pass does, all the passes do

Here the body is any run that comes from the start of the loop back to its end.  It may
leave calls open; then it leaves them open once for each pass.
-/

/-- The end of a loop that has more passes. -/
theorem comes_again {e : Nat} (start : Nat) {remaining : Int32} {i : Instruction κ α}
    (he : p.get? e = some i) (hf : i.flow = .loopEnd) (hmore : 0 < remaining - 1)
    (loops : List LoopFrame) (calls : List Nat) :
    p.Comes ⟨e, ⟨start, remaining⟩ :: loops, calls⟩
      ⟨start + 1, ⟨start, remaining - 1⟩ :: loops, calls⟩ :=
  Relation.ReflTransGen.single (by simp [next?, he, hf, hmore])

/-- The end of a loop in its last pass. -/
theorem comes_close {e : Nat} (start : Nat) {remaining : Int32} {i : Instruction κ α}
    (he : p.get? e = some i) (hf : i.flow = .loopEnd) (hlast : ¬ 0 < remaining - 1)
    (loops : List LoopFrame) (calls : List Nat) :
    p.Comes ⟨e, ⟨start, remaining⟩ :: loops, calls⟩ ⟨e + 1, loops, calls⟩ :=
  Relation.ReflTransGen.single (by simp [next?, he, hf, hlast])

/-- A loop whose body comes to an end with some calls open leaves these open once for each pass. -/
theorem comes_of_passes {start e : Nat} {extra : List Nat} {i : Instruction κ α}
    (he : p.get? e = some i) (hf : i.flow = .loopEnd)
    (body : ∀ loops calls, p.Comes ⟨start + 1, loops, calls⟩ ⟨e, loops, extra ++ calls⟩)
    {remaining : Int32} (hpos : 1 ≤ remaining) :
    ∀ loops calls, p.Comes ⟨start + 1, ⟨start, remaining⟩ :: loops, calls⟩
      ⟨e + 1, loops, (List.replicate remaining.toNatClampNeg extra).flatten ++ calls⟩ := by
  refine passes_induction (P := fun remaining k => ∀ loops calls,
    p.Comes ⟨start + 1, ⟨start, remaining⟩ :: loops, calls⟩
      ⟨e + 1, loops, (List.replicate k extra).flatten ++ calls⟩) ?_ ?_ hpos
  · intro n _ hlast loops calls
    have hclose := comes_close start he hf hlast loops (extra ++ calls)
    simpa using (body (⟨start, n⟩ :: loops) calls).trans hclose
  · intro n k _ hmore ih loops calls
    have hagain := comes_again start he hf hmore loops (extra ++ calls)
    have hpass := (body (⟨start, n⟩ :: loops) calls).trans hagain
    rw [List.replicate_succ', List.flatten_append, List.append_assoc]
    simpa using hpass.trans (ih loops (extra ++ calls))

private theorem lt_outermost_passes {start e n : Nat} {extra : List Nat}
    (h : start < outermost e extra) :
    start < outermost (e + 1) (List.replicate (n + 1) extra).flatten := by
  cases extra with
  | nil =>
      rw [List.flatten_eq_nil_iff.mpr (by simp)]
      exact Nat.lt_succ_of_lt h
  | cons back rest =>
      rw [List.replicate_succ', List.flatten_append, outermost_append]
      simpa [outermost] using h

/-! ### Every stretch has a fate

The stretch is looked at by itself, with only the loops that it has opened and the calls
that it has made, until it touches something from before.  The induction is on the room
for loops first and then on the weight.  A loop that is opened has less room inside,
which gives the fate of its body; from there it is one of the two cases of the header.
-/

/-- A run from here leaves the subroutine that it is in, and the loops that it leaves open do the
same whenever they are gone on with. -/
inductive Leaves (p : Program κ α) : Nat → Prop
  | intro {ip r : Nat} {i : Instruction κ α} {opened : List LoopFrame} (hr : p.get? r = some i)
      (hf : i.flow = .ret)
      (run : ∀ loops calls, p.Comes ⟨ip, loops, calls⟩ ⟨r, opened ++ loops, calls⟩)
      (leaves : ∀ f ∈ opened, Leaves p (f.start + 1)) : Leaves p ip

/-- What becomes of a stretch of a run that begins at `ip`, with the loops `opened` and the calls
`called` made in the stretch, until it touches a loop or a call from before.  There is room for
`room` more loops. -/
inductive Fate (p : Program κ α) (room ip : Nat) (opened : List LoopFrame) (called : List Nat) :
    Prop
  | ends (h : ∀ loops calls, Limits.loopDepth ≤ loops.length + room →
      p.Ends ⟨ip, opened ++ loops, called ++ calls⟩)
  /-- It comes to the end of a loop from before. -/
  | loopEnd {e : Nat} {i : Instruction κ α} {called' : List Nat} (he : p.get? e = some i)
      (hf : i.flow = .loopEnd)
      (run : ∀ loops calls, p.Comes ⟨ip, opened ++ loops, called ++ calls⟩
        ⟨e, loops, called' ++ calls⟩)
      (further : p.weight (e :: called') ≤ p.weight (ip :: called))
  /-- It comes to the return from the subroutine that it is in. -/
  | ret {r : Nat} {i : Instruction κ α} {opened' : List LoopFrame} (hr : p.get? r = some i)
      (hf : i.flow = .ret)
      (run : ∀ loops calls, p.Comes ⟨ip, opened ++ loops, called ++ calls⟩
        ⟨r, opened' ++ loops, calls⟩)
      (leaves : ∀ f ∈ opened', p.Leaves (f.start + 1))

/-- A stretch may be looked at from a later point on. -/
theorem Fate.of_comes {room ip ip' : Nat} {opened opened' : List LoopFrame}
    {called called' : List Nat}
    (run : ∀ loops calls, p.Comes ⟨ip, opened ++ loops, called ++ calls⟩
      ⟨ip', opened' ++ loops, called' ++ calls⟩)
    (further : p.weight (ip' :: called') ≤ p.weight (ip :: called))
    (h : p.Fate room ip' opened' called') : p.Fate room ip opened called := by
  cases h with
  | ends h => exact .ends fun loops calls hroom => ends_of_comes (run loops calls) (h loops calls hroom)
  | loopEnd he hf run' further' =>
      exact .loopEnd he hf (fun loops calls => (run loops calls).trans (run' loops calls))
        (Nat.le_trans further' further)
  | ret hr hf run' leaves =>
      exact .ret hr hf (fun loops calls => (run loops calls).trans (run' loops calls)) leaves

theorem Fate.of_ends {room ip ip' : Nat} {opened opened' : List LoopFrame}
    {called called' : List Nat}
    (run : ∀ loops calls, p.Comes ⟨ip, opened ++ loops, called ++ calls⟩
      ⟨ip', opened' ++ loops, called' ++ calls⟩)
    (h : ∀ loops calls, Limits.loopDepth ≤ loops.length + room →
      p.Ends ⟨ip', opened' ++ loops, called' ++ calls⟩) : p.Fate room ip opened called :=
  .ends fun loops calls hroom => ends_of_comes (run loops calls) (h loops calls hroom)

/-- Calls nested too deep end the run. -/
theorem ends_of_deep {ip : Nat} {loops : List LoopFrame} {calls : List Nat}
    (h : Limits.callDepth < calls.length) : p.Ends ⟨ip, loops, calls⟩ :=
  ends_of_not_fits fun fits => absurd fits.calls (Nat.not_le.mpr h)

/-- Loops nested too deep end the run. -/
theorem ends_of_many_loops {ip : Nat} {loops : List LoopFrame} {calls : List Nat}
    (h : Limits.loopDepth < loops.length) : p.Ends ⟨ip, loops, calls⟩ :=
  ends_of_not_fits fun fits => absurd fits.loops (Nat.not_le.mpr h)

/-- Every stretch of less than some weight has a fate. -/
def FateBelow (p : Program κ α) (room w : Nat) : Prop :=
  ∀ (ip : Nat) (opened : List LoopFrame) (called : List Nat), p.weight (ip :: called) < w →
    (∀ f ∈ opened, p.Leaves (f.start + 1)) → p.Fate room ip opened called

section Stretch

variable {room ip : Nat} {opened opened' : List LoopFrame} {called : List Nat}

/-- A run that comes further on the tape, whatever it has called on the way. -/
theorem fate_of_further (ih : p.FateBelow room (p.weight (ip :: called))) (hip : ip ≤ p.size)
    {ip' : Nat} (extra : List Nat) (hlt : ip < outermost ip' extra)
    (leaves : ∀ f ∈ opened', p.Leaves (f.start + 1))
    (run : ∀ loops calls, p.Comes ⟨ip, opened ++ loops, called ++ calls⟩
      ⟨ip', opened' ++ loops, (extra ++ called) ++ calls⟩) :
    p.Fate room ip opened called := by
  by_cases hroom : (extra ++ called).length ≤ Limits.callDepth
  · have hless := weight_lt extra called hlt hip hroom
    exact .of_comes run (Nat.le_of_lt hless) (ih ip' opened' _ hless leaves)
  · refine .of_ends run fun loops calls _ => ends_of_deep ?_
    rw [List.length_append]
    omega

/-- A run that comes to a return. -/
theorem fate_of_return (ih : p.FateBelow room (p.weight (ip :: called))) (hip : ip ≤ p.size)
    {r : Nat} {i : Instruction κ α} (hr : p.get? r = some i) (hf : i.flow = .ret)
    (leaves : ∀ f ∈ opened', p.Leaves (f.start + 1))
    (run : ∀ loops calls, p.Comes ⟨ip, opened ++ loops, calls⟩ ⟨r, opened' ++ loops, calls⟩) :
    p.Fate room ip opened called := by
  cases called with
  | nil => exact .ret hr hf run leaves
  | cons back rest =>
      have hless := weight_return_lt back rest hip
      exact .of_comes (fun loops calls => (run loops _).trans (Moves.ret hr hf rfl).comes)
        (Nat.le_of_lt hless) (ih back opened' rest hless leaves)

/-- A run that is at the end of a loop. -/
theorem fate_of_loopEnd (ih : p.FateBelow room (p.weight (ip :: called))) {i : Instruction κ α}
    (hi : p.get? ip = some i) (hf : i.flow = .loopEnd)
    (leaves : ∀ f ∈ opened, p.Leaves (f.start + 1)) : p.Fate room ip opened called := by
  have hip : ip ≤ p.size := Nat.le_of_lt (lt_size_of_get? hi)
  cases opened with
  | nil => exact .loopEnd hi hf (fun loops calls => .refl _) (Nat.le_refl _)
  | cons top rest =>
      have hrest : ∀ f ∈ rest, p.Leaves (f.start + 1) := fun f hmem =>
        leaves f (List.mem_cons_of_mem _ hmem)
      by_cases hmore : 0 < top.remaining - 1
      · -- Sent back, the run leaves the subroutine as it did when the loop was opened.
        obtain ⟨hr, hrf, run, hleft⟩ := leaves top (by simp)
        rename_i r j left
        have hleaves : ∀ f ∈ left ++ { top with remaining := top.remaining - 1 } :: rest,
            p.Leaves (f.start + 1) := by
          intro f hmem
          rcases List.mem_append.mp hmem with hmem | hmem
          · exact hleft f hmem
          · rcases List.mem_cons.mp hmem with rfl | hmem
            · exact leaves top (by simp)
            · exact hrest f hmem
        refine fate_of_return ih hip hr hrf hleaves fun loops calls => ?_
        have hagain : p.Comes ⟨ip, top :: rest ++ loops, calls⟩ ⟨top.start + 1,
            { top with remaining := top.remaining - 1 } :: (rest ++ loops), calls⟩ :=
          (Moves.again hi hf rfl hmore).comes
        simpa using hagain.trans (run _ calls)
      · exact fate_of_further ih hip [] (Nat.lt_succ_self ip) hrest fun loops calls =>
          (Moves.close hi hf rfl hmore).comes

/-- A run that is at the start of a loop. -/
theorem fate_of_loopStart (ih : p.FateBelow room (p.weight (ip :: called)))
    (ihRoom : ∀ room' < room, ∀ ip', p.Fate room' ip' [] []) {i : Instruction κ α}
    (hi : p.get? ip = some i) (hf : i.flow = .loopStart)
    (leaves : ∀ f ∈ opened, p.Leaves (f.start + 1)) : p.Fate room ip opened called := by
  have hip : ip ≤ p.size := Nat.le_of_lt (lt_size_of_get? hi)
  by_cases hn : i.count ≤ 0
  · exact fate_of_further ih hip [] (loopExit?_getD_bounds (lt_size_of_get? hi)).1
      leaves fun loops calls => (Moves.skip hi hf hn).comes
  have enter : ∀ loops calls, p.Comes ⟨ip, opened ++ loops, called ++ calls⟩
      ⟨ip + 1, ⟨ip, i.count⟩ :: opened ++ loops, called ++ calls⟩ :=
    fun loops calls => (Moves.enter hi hf hn).comes
  cases room with
  | zero =>
      refine .of_ends enter fun loops calls hroom => ?_
      refine ends_of_many_loops ?_
      simp only [List.cons_append, List.length_cons, List.length_append]
      omega
  | succ room =>
      -- What the body does from its start decides what becomes of the loop.
      cases ihRoom room (Nat.lt_succ_self room) (ip + 1) with
      | ends h =>
          refine .of_ends enter fun loops calls hroom => ?_
          refine h (⟨ip, i.count⟩ :: opened ++ loops) (called ++ calls) ?_
          simp only [List.cons_append, List.length_cons, List.length_append]
          omega
      | ret hr hrf run hleft =>
          refine fate_of_further ih hip [] (Nat.lt_succ_self ip) ?_ enter
          intro f hmem
          rcases List.mem_cons.mp hmem with rfl | hmem
          · exact .intro hr hrf run hleft
          · exact leaves f hmem
      | @loopEnd e j extra he hef run further =>
          have hpos : 1 ≤ i.count := by grind
          obtain ⟨n, hn⟩ := exists_passes hpos
          have hout := le_outermost extra (lt_size_of_get? hi) further
          have hall := comes_of_passes he hef run hpos
          rw [hn] at hall
          refine fate_of_further ih hip (List.replicate (n + 1) extra).flatten
            (lt_outermost_passes hout) leaves fun loops calls => ?_
          have := (enter loops calls).trans (hall (opened ++ loops) (called ++ calls))
          simpa using this

end Stretch

/-- Every stretch of a run has one of the three fates. -/
theorem fate (p : Program κ α) (room ip : Nat) (opened : List LoopFrame) (called : List Nat)
    (leaves : ∀ f ∈ opened, p.Leaves (f.start + 1)) : p.Fate room ip opened called := by
  induction room using Nat.strong_induction_on generalizing ip opened called with
  | _ room ihRoom =>
  induction hw : p.weight (ip :: called) using Nat.strong_induction_on
    generalizing ip opened called with
  | _ w ihWeight =>
  have ih : p.FateBelow room (p.weight (ip :: called)) := fun ip' opened' called' hless leaves' =>
    ihWeight _ (hw ▸ hless) ip' opened' called' leaves' rfl
  cases hi : p.get? ip with
  | none => exact .ends fun loops calls _ => ends_of_none (by simp [next?, hi])
  | some i =>
      have hip : ip ≤ p.size := Nat.le_of_lt (lt_size_of_get? hi)
      have pass : i.flow = .instant ∨ i.flow = .timed ∨ i.flow = .yielding →
          p.Fate room ip opened called := fun hf =>
        fate_of_further ih hip [] (Nat.lt_succ_self ip) leaves
          fun loops calls => (Moves.pass hi hf).comes
      cases hf : i.flow with
      | instant => exact pass (Or.inl hf)
      | timed => exact pass (Or.inr (Or.inl hf))
      | yielding => exact pass (Or.inr (Or.inr hf))
      | loopStart =>
          refine fate_of_loopStart ih ?_ hi hf leaves
          exact fun room' hroom ip' => ihRoom room' hroom ip' [] [] (by simp)
      | loopEnd => exact fate_of_loopEnd ih hi hf leaves
      | call =>
          cases htarget : p.position? i.label with
          | none => exact .ends fun loops calls _ => ends_of_none (by simp [next?, hi, hf, htarget])
          | some target =>
              exact fate_of_further ih hip [ip + 1] (Nat.lt_succ_self ip) leaves
                fun loops calls => (Moves.call hi hf htarget).comes
      | ret => exact fate_of_return ih hip hi hf leaves fun loops calls => .refl _
      | stop => exact .ends fun loops calls _ => ends_of_none (by simp [next?, hi, hf])

/-- Without open loops every run ends, wherever it is and whatever it has called. -/
theorem ends_without_loops (p : Program κ α) (ip : Nat) (calls : List Nat) :
    p.Ends ⟨ip, [], calls⟩ := by
  induction hw : p.weight (ip :: calls) using Nat.strong_induction_on generalizing ip calls with
  | _ w ih =>
  cases p.fate Limits.loopDepth ip [] calls (by simp) with
  | ends h => simpa using h [] [] (by simp)
  | @ret r j left hr hf run _ =>
      have hcome : p.Comes ⟨ip, [], calls⟩ ⟨r, left, []⟩ := by simpa using run [] []
      exact ends_of_comes hcome (ends_of_none (by simp [next?, hr, hf]))
  | @loopEnd e j called he hf run further =>
      have hcome : p.Comes ⟨ip, [], calls⟩ ⟨e, [], called⟩ := by simpa using run [] []
      by_cases hroom : called.length ≤ Limits.callDepth
      · refine ends_of_comes (hcome.trans (Moves.stray he hf rfl).comes) ?_
        refine ih _ ?_ (e + 1) called rfl
        have hless : p.weight ((e + 1) :: ([] ++ called)) < p.weight (e :: called) :=
          weight_lt [] called (Nat.lt_succ_self e) (Nat.le_of_lt (lt_size_of_get? he)) hroom
        rw [List.nil_append] at hless
        omega
      · exact ends_of_comes hcome (ends_of_deep (Nat.not_le.mp hroom))

/-- No run goes on forever from where control can be. -/
theorem CanReach.ends {s : Control} (h : p.CanReach s) : p.Ends s := by
  induction h with
  | start => exact p.ends_without_loops 0 []
  | next h hnext fits ih => exact ih.inv ⟨hnext, h.fits, fits⟩

end Program

end Barrage
