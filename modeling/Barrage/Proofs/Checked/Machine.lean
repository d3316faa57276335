/-
The dispatch loop with checked arithmetic.

A sum that is too large wraps around, a quotient by zero is zero, and a position that is
out of range is passed over, all of it in silence.  Here is the loop once more with
operations that tell, each of which comes to a `Fault` instead.  Nothing else is
different, and the handlers may check as well.

No fault ever occurs: from every script that updates lead to, the loop that checks comes
to what the plain one does, `update_eq`.  Each check passes because of an invariant that
is kept elsewhere.  The table of visits is as long as the tape, `Pulse.Sound`; an open
loop has a pass left, `LoopFrame.Of`; and the counter of ticks stops at its largest
value.
-/
import Barrage.Proofs.Script.Preserve

namespace Barrage

/-- Why an operation that checks its operands has no result. -/
inductive Fault where
  /-- A number does not fit into 32 bits. -/
  | overflow
  | divisionByZero
  | outOfRange
  /-- The operation has no result in any case. -/
  | crash (crash : Crash)

namespace Checked

/-! ### Operations that check

An operation on machine integers calculates with whole numbers and asks in the end
whether the result fits; a divisor or a position is looked at before.  Where the check
passes, the result is that of the operation that wraps around.
-/

variable {β γ : Type}

/-- An outcome in which nothing was left to check. -/
def lift : Except Crash β → Except Fault β :=
  Except.mapError .crash

theorem lift_bind (x : Except Crash β) (f : β → Except Crash γ) :
    lift (x >>= f) = lift x >>= fun b => lift (f b) := by
  cases x <;> rfl

theorem lift_mapM {δ : Type} {items : List δ} {f : δ → Except Fault β} {g : δ → Except Crash β}
    (agree : ∀ d ∈ items, f d = lift (g d)) : items.mapM f = lift (items.mapM g) := by
  induction items with
  | nil => rfl
  | cons d rest ih =>
      rw [List.mapM_cons, List.mapM_cons, agree d (by simp), ih fun d hd => agree d (by simp [hd]),
        lift_bind]
      refine bind_congr fun b => ?_
      rw [lift_bind]
      rfl

/-- A number as a machine integer, if it is one. -/
def fit (n : Int) : Except Fault Int32 :=
  if -2 ^ 31 ≤ n ∧ n < 2 ^ 31 then .ok (.ofInt n) else .error .overflow

def add (a b : Int32) : Except Fault Int32 :=
  fit (a.toInt + b.toInt)

def sub (a b : Int32) : Except Fault Int32 :=
  fit (a.toInt - b.toInt)

def div (a b : Int32) : Except Fault Int32 :=
  if b = 0 then .error .divisionByZero else fit (a.toInt.tdiv b.toInt)

/-- One machine integer over another, as a number. -/
def ratio {α : Type} [Scalar α] (a b : Int32) : Except Fault α :=
  if b = 0 then .error .divisionByZero else .ok (Scalar.ofInt32 a / Scalar.ofInt32 b)

/-- The item at a position. -/
def item (items : Array β) (k : Nat) : Except Fault β :=
  match items[k]? with
  | some b => .ok b
  | none => .error .outOfRange

theorem fit_toInt (n : Int32) : fit n.toInt = .ok n := by
  rw [fit, if_pos ⟨n.le_toInt, n.toInt_lt⟩, Int32.ofInt_toInt]

/-- There is room for one more below any other number. -/
theorem add_one {n m : Int32} (below : n < m) : add n 1 = .ok (n + 1) := by
  have below := Int32.lt_iff_toInt_lt.mp below
  have least := n.le_toInt
  have greatest := m.toInt_lt
  have exact : (n + 1).toInt = n.toInt + 1 := by
    rw [Int32.toInt_add, Int32.toInt_one, Int.bmod_eq_of_le] <;> omega
  rw [add, Int32.toInt_one, ← exact, fit_toInt]

/-- And for one less above any other. -/
theorem sub_one {n m : Int32} (above : m < n) : sub n 1 = .ok (n - 1) := by
  have above := Int32.lt_iff_toInt_lt.mp above
  have least := m.le_toInt
  have greatest := n.toInt_lt
  have exact : (n - 1).toInt = n.toInt - 1 := by
    rw [Int32.toInt_sub, Int32.toInt_one, Int.bmod_eq_of_le] <;> omega
  rw [sub, Int32.toInt_one, ← exact, fit_toInt]

/-- Only minus one could make a quotient too large. -/
theorem div_of_pos {n m : Int32} (positive : 1 ≤ m) : div n m = .ok (n / m) := by
  have nonzero : m ≠ 0 := by
    rintro rfl
    exact absurd positive (by decide)
  have exact : (n / m).toInt = n.toInt.tdiv m.toInt := by
    refine Int32.toInt_div_of_ne_right n m ?_
    rintro rfl
    exact absurd positive (by decide)
  rw [div, if_neg nonzero, ← exact, fit_toInt]

/-- A check that fails tells why. -/
example : add Int32.maxValue 1 = .error .overflow ∧ sub Int32.minValue 1 = .error .overflow ∧
    div Int32.minValue (-1) = .error .overflow ∧ div 1 0 = .error .divisionByZero :=
  ⟨rfl, rfl, rfl, rfl⟩

theorem ratio_of_ne_zero {α : Type} [Scalar α] {n m : Int32} (nonzero : m ≠ 0) :
    ratio n m = (.ok (Scalar.ofInt32 n / Scalar.ofInt32 m) : Except Fault α) :=
  if_neg nonzero

theorem item_of_lt {items : Array β} {k : Nat} (inRange : k < items.size) :
    item items k = .ok items[k] := by
  rw [item, Array.getElem?_eq_getElem inRange]

/-! ### The loop

Three places are different from the plain loop: the counter of ticks, the passes of a
loop and the count of visits, the last of which is looked up in the table with a check.
The limit on visits is no machine integer.
-/

/-- Handlers that check their arithmetic. -/
structure Handlers (κ α σ : Type) where
  instant : Instruction κ α → σ → Except Fault (Signal × σ)
  timed : Instruction κ α → Phase α → Option (Scratch α) → σ →
    Except Fault (Hold × Option (Scratch α) × σ)

/-- The handlers of an interpreter that has nothing to check. -/
def Handlers.of {κ α σ : Type} (I : Interpreter κ α σ) : Handlers κ α σ where
  instant i state := lift (I.instant i state)
  timed i phase given state := lift (I.timed i phase given state)

variable {κ α σ : Type} [Vocabulary κ] [Scalar α]

def nextFrame (frame : Int32) : Except Fault Int32 :=
  if frame = Int32.maxValue then .ok frame else add frame 1

def endLoop (c : Cursor κ α) : Except Fault (Cursor κ α) :=
  match c.loops with
  | [] => .ok { c with ip := c.ip + 1 }
  | top :: rest => do
    let remaining ← sub top.remaining 1
    if 0 < remaining then
      return { c with loops := { top with remaining } :: rest, ip := top.start + 1 }
    else
      return { c with loops := rest, ip := c.ip + 1 }

def settle (c : Cursor κ α) (hold : Hold) (scratch : Option (Scratch α)) (state : σ) :
    Except Fault (Step κ α σ) :=
  match hold with
  | .pending => do
    let frame ← nextFrame c.frame
    let kept := match scratch with
      | some s => c.scratch.insert c.ip s
      | none => c.scratch
    return .done true { c with frame, scratch := kept } state
  | .release => return .next (.ofCursor c.advance state)

def hold (J : Handlers κ α σ) (t : Pulse κ α σ) (i : Instruction κ α) (fraction : α) :
    Except Fault (Step κ α σ) := do
  let c := t.cursor
  let (answer, scratch, state) ←
    J.timed i (.run c.frame i.duration fraction) c.scratch[c.ip]? t.state
  settle { c with scratch := c.scratch.erase c.ip } answer scratch state

def finish (J : Handlers κ α σ) (t : Pulse κ α σ) (i : Instruction κ α) :
    Except Fault (Step κ α σ) := do
  let c := t.cursor
  let (_, _, state) ← J.timed i .finish c.scratch[c.ip]? t.state
  return .next (.ofCursor c.advance state)

def dispatch (J : Handlers κ α σ) (t : Pulse κ α σ) (i : Instruction κ α) :
    Except Fault (Step κ α σ) :=
  let c := t.cursor
  match i.flow with
  | .instant => do
    match ← J.instant i t.state with
    | (.proceed, state) => return .next { t with cursor := { c with ip := c.ip + 1 }, state }
    | (.halt, state) => return .done false c.finish state
  | .timed =>
    if i.duration ≤ c.frame then finish J t i else hold J t i (progress c.frame i.duration)
  | .yielding => hold J t i 0.0
  | .loopStart => return t.jump (c.startLoop i.count)
  | .loopEnd => do
    let cursor ← endLoop c
    return .next { t with cursor }
  | .call => return t.jump (c.enter i.label)
  | .ret => return t.jump c.leave
  | .stop => return .done false c.finish t.state

def step (J : Handlers κ α σ) (t : Pulse κ α σ) : Except Fault (Step κ α σ) :=
  let c := t.cursor
  match c.program.get? c.ip with
  | none => return .done false c.finish t.state
  | some i => do
    let seen := (← item t.visits c.ip) + 1
    if Limits.visits c.program.size < seen then
      return .done false (c.abort (.runawayDispatch c.ip seen)) t.state
    else
      dispatch J { t with visits := t.visits.set! c.ip seen } i

def run (J : Handlers κ α σ) : (fuel : Nat) → Pulse κ α σ →
    Except Fault (Bool × Cursor κ α × σ)
  | 0, t => .ok (true, t.cursor, t.state)
  | fuel + 1, t => do
    match ← step J t with
    | .next t => run J fuel t
    | .done running cursor state => return (running, cursor, state)

/-- One tick of a script, with everything checked. -/
def update (J : Handlers κ α σ) (c : Cursor κ α) (state : σ) :
    Except Fault (Bool × Cursor κ α × σ) :=
  if c.finished then .ok (false, c, state)
  else if c.program.size ≤ c.ip then .ok (false, c.finish, state)
  else run J c.program.controlStates (.ofCursor c state)

/-! ### One instruction

The handlers need to agree only where the loop really comes by, with the frame it has
there and with what the instruction has kept.  `AgreeAt` therefore speaks of one point
in time; a handler may rely on all that is known of it.
-/

/-- Wherever the loop comes to `i` at `t`, the handlers that check come to what the others do. -/
structure Handlers.AgreeAt (J : Handlers κ α σ) (I : Interpreter κ α σ) (t : Pulse κ α σ)
    (i : Instruction κ α) : Prop where
  instant : J.instant i t.state = lift (I.instant i t.state)
  run : t.Holds i → ∀ fraction,
    J.timed i (.run t.cursor.frame i.duration fraction) t.kept t.state =
      lift (I.timed i (.run t.cursor.frame i.duration fraction) t.kept t.state)
  finish : J.timed i .finish t.kept t.state = lift (I.timed i .finish t.kept t.state)

variable {I : Interpreter κ α σ} {J : Handlers κ α σ} {t : Pulse κ α σ} {c : Cursor κ α}
  {i : Instruction κ α} {p : Program κ α}

theorem Handlers.of_agreeAt (I : Interpreter κ α σ) (t : Pulse κ α σ) (i : Instruction κ α) :
    (Handlers.of I).AgreeAt I t i :=
  ⟨rfl, fun _ _ => rfl, rfl⟩

/-- The counter of ticks stops before it would wrap around. -/
theorem nextFrame_eq (frame : Int32) : nextFrame frame = .ok (Barrage.nextFrame frame) := by
  unfold nextFrame Barrage.nextFrame
  split
  · rfl
  · rename_i more
    have below : frame < Int32.maxValue :=
      Int32.lt_of_le_of_ne (Int32.le_maxValue frame) more
    exact add_one below

/-- An open loop has a pass left that can be taken off. -/
theorem endLoop_eq (onTape : c.control.OnTape p) : endLoop c = .ok c.endLoop := by
  unfold endLoop Cursor.endLoop
  cases hl : c.loops with
  | nil => rfl
  | cons top rest =>
      obtain ⟨-, -, -, passes, -⟩ := onTape.loops top (by simp [hl])
      have positive : 0 < top.remaining :=
        Int32.lt_of_lt_of_le (show (0 : Int32) < 1 by decide) passes
      dsimp only
      rw [sub_one positive]
      dsimp only [bind, Except.bind]
      split <;> rfl

theorem settle_eq (c : Cursor κ α) (answer : Hold) (scratch : Option (Scratch α)) (state : σ) :
    settle c answer scratch state = .ok (Pulse.settle c answer scratch state) := by
  cases answer with
  | pending =>
      unfold settle
      rw [nextFrame_eq]
      rfl
  | release => rfl

theorem hold_eq {fraction : α}
    (agree : J.timed i (.run t.cursor.frame i.duration fraction) t.kept t.state =
      lift (I.timed i (.run t.cursor.frame i.duration fraction) t.kept t.state)) :
    hold J t i fraction = lift (t.hold I i fraction) := by
  unfold hold Pulse.hold
  rw [lift_bind]
  refine (congrArg (· >>= _) agree).trans (bind_congr fun answered => ?_)
  exact settle_eq _ _ _ _

theorem finish_eq
    (agree : J.timed i .finish t.kept t.state = lift (I.timed i .finish t.kept t.state)) :
    finish J t i = lift (t.finish I i) := by
  unfold finish Pulse.finish
  rw [lift_bind]
  exact congrArg (· >>= _) agree

theorem dispatch_eq (onTape : t.cursor.control.OnTape p) (agree : J.AgreeAt I t i) :
    dispatch J t i = lift (t.dispatch I i) := by
  unfold dispatch Pulse.dispatch
  cases hf : i.flow with
  | instant =>
      dsimp only
      rw [agree.instant, lift_bind]
      refine bind_congr fun answered => ?_
      obtain ⟨signal, state⟩ := answered
      cases signal <;> rfl
  | timed =>
      dsimp only
      by_cases expired : i.duration ≤ t.cursor.frame
      · rw [if_pos expired, if_pos expired]
        exact finish_eq agree.finish
      · rw [if_neg expired, if_neg expired]
        exact hold_eq (agree.run (Or.inr ⟨hf, Int32.not_le.mp expired⟩) _)
  | yielding => exact hold_eq (agree.run (Or.inl hf) _)
  | loopEnd =>
      dsimp only
      rw [endLoop_eq onTape]
      rfl
  | loopStart | call | ret | stop => rfl

/-- The table of visits has a place for every instruction of the tape. -/
theorem step_eq (sound : t.Sound) (onTape : t.cursor.control.OnTape p)
    (agree : ∀ i, t.Runs i → J.AgreeAt I t i) : step J t = lift (t.step I) := by
  cases hi : t.cursor.program.get? t.cursor.ip with
  | none =>
      rw [Pulse.step_offTape hi]
      unfold step
      simp only [hi]
      rfl
  | some i =>
      have inRange : t.cursor.ip < t.visits.size := by
        rw [sound.visits]
        exact Program.lt_size_of_get? hi
      have seen : t.seen = t.visits[t.cursor.ip] + 1 := by
        simp [Pulse.seen, Array.getElem_modify, inRange]
      have counted : t.counted =
          { t with visits := t.visits.set! t.cursor.ip (t.visits[t.cursor.ip] + 1) } := rfl
      unfold step
      simp only [hi, item_of_lt inRange]
      dsimp only [bind, Except.bind]
      rw [← seen]
      by_cases tooOften : Limits.visits t.cursor.program.size < t.seen
      · rw [if_pos tooOften, Pulse.step_runaway hi tooOften]
        rfl
      · have run : t.Runs i := ⟨hi, Nat.not_lt.mp tooOften⟩
        rw [if_neg tooOften, Pulse.step_runs run, seen, ← counted]
        have agree := agree i run
        exact dispatch_eq (t := t.counted) onTape ⟨agree.instant, agree.run, agree.finish⟩

/-! ### One tick

By induction on the steps that are left, with two invariants: the table of visits fits
the tape, and control is where the tape can bring it.  Both machines take the same step,
so they are at the same point for the next one.
-/

theorem run_eq (sound : t.Sound) (program : t.cursor.program = p)
    (reach : p.CanReach t.cursor.control)
    (agree : ∀ t' i, t.Within I t' → t'.Runs i → J.AgreeAt I t' i) (fuel : Nat) :
    run J fuel t = lift (t.run I fuel) := by
  induction fuel generalizing t with
  | zero => rfl
  | succ fuel ih =>
      have hstep := step_eq sound reach.onTape fun i => agree t i .start
      unfold run Pulse.run
      rw [hstep, lift_bind]
      cases hplain : t.step I with
      | error e => rfl
      | ok r =>
          cases r with
          | done running c state => rfl
          | next t' =>
              have out := Pulse.outcome_of_step hplain
              obtain ⟨same, moves, fits⟩ := out.leads
              rw [program] at moves
              exact ih (out.idle sound).1 (same.trans program)
                (.next reach moves (fits reach.fits))
                fun t'' i within => agree t'' i (.head hplain within)

/-- Checks change nothing about a script that updates lead to, unless it is the handlers that fail
them. -/
theorem update_eq (reachable : c.Reachable p) {state : σ}
    (agree : c.finished = false → ∀ t i, (Pulse.ofCursor c state).Within I t → t.Runs i →
      J.AgreeAt I t i) : update J c state = lift (c.update I state) := by
  unfold update Cursor.update
  by_cases hfinished : c.finished = true
  · rw [if_pos hfinished, if_pos hfinished]
    rfl
  · have unfinished := Bool.eq_false_of_not_eq_true hfinished
    rw [if_neg hfinished, if_neg hfinished]
    by_cases hoff : c.program.size ≤ c.ip
    · rw [if_pos hoff, if_pos hoff]
      rfl
    · rw [if_neg hoff, if_neg hoff]
      obtain ⟨program, reach⟩ := reachable.canReach
      exact run_eq (reachable.ready.sound unfinished state) program reach (agree unfinished) _

end Checked

end Barrage
