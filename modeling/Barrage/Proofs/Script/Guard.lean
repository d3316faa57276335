/-
When the guard stops a script that makes no progress.

On a tape of instant instructions and loops nothing clears what the guard counts, so a
whole update is one count.  A position is visited as often as the passes of the loops
around it come to when they are multiplied, and so the guard steps in just when for one
of the loops entered that product is more than it allows.

`Program.share a b` is how often the stretch from `a` up to `b` visits each of its
positions.  `Pulse.Fares` says what comes of a stretch: control passes through it with
exactly these visits, or the guard steps in at a position that has had fewer of them.
Both add up, over one stretch after another and over the passes of a loop, and so no
bound on the visits has to be carried along.
-/
import Barrage.Proofs.Script.Pace
import Barrage.Proofs.Script.Preserve

namespace Barrage

variable {κ α σ : Type} [Vocabulary κ] [Scalar α]

omit [Vocabulary κ] [Scalar α] in
/-- Writing the calls down changes no answer. -/
theorem Interpreter.Proceeds.recorded {I : Interpreter κ α σ} (proceeds : I.Proceeds) :
    I.recorded.Proceeds := by
  rintro i ⟨state, calls⟩
  obtain ⟨state', hI⟩ := proceeds i state
  exact ⟨_, by simp only [Interpreter.recorded, hI]; rfl⟩

namespace Program

variable {p : Program κ α} {a b c e k : Nat} {i j : Instruction κ α}

/-! ### The share of a stretch

The loops that count are those that start within the stretch, which is why `timesSince`
looks at the open loops from a position on.  Shares add up over two stretches in a row
because a balanced stretch leaves no loop open, and over the passes of a loop because
inside of it every product has the passes of this loop as one more factor.
-/

/-- The loops open before position `k` that start at `a` or behind it, the innermost first. -/
def openSince (p : Program κ α) (a k : Nat) : List Nat :=
  (p.openBefore k).filter (a ≤ ·)

/-- How often a stretch that begins at `a` visits position `k`. -/
def timesSince (p : Program κ α) (a k : Nat) : Nat :=
  ((p.openSince a k).map p.passes).prod

/-- How often the stretch from `a` up to `b` visits a position. -/
def share (p : Program κ α) (a b k : Nat) : Nat :=
  if a ≤ k ∧ k < b then p.timesSince a k else 0

theorem timesSince_zero (p : Program κ α) (k : Nat) : p.timesSince 0 k = p.timesAt k := by
  simp [timesSince, openSince, timesAt]

/-- No loop that is open at the begin of a stretch has started in it. -/
theorem timesSince_self (ha : a ≤ p.size) : p.timesSince a a = 1 := by
  have hnone : p.openSince a a = [] := by
    refine List.filter_eq_nil_iff.mpr fun start hmem => ?_
    have := lt_of_mem_openBefore ha hmem
    simp only [decide_eq_true_eq]
    omega
  simp [timesSince, hnone]

/-- The loops of a balanced stretch are not open behind it. -/
theorem Balanced.timesSince_eq (h : p.Balanced a b) (hbk : b ≤ k) (hk : k ≤ p.size) :
    p.timesSince a k = p.timesSince b k := by
  have hle := h.le
  have hsame : p.openSince a k = p.openSince b k := by
    refine List.filter_congr fun start hmem => ?_
    simp only [decide_eq_decide]
    refine ⟨fun hstart => ?_, Nat.le_trans hle⟩
    by_contra hinside
    have hopen := mem_openBefore_of_le (Nat.not_le.mp hinside) hbk hk hmem
    rw [h.openBefore_eq] at hopen
    have := lt_of_mem_openBefore (by omega) hopen
    omega
  rw [timesSince, timesSince, hsame]

/-- Inside of a loop everything is visited once more for each of its passes. -/
theorem Balanced.timesSince_body (body : p.Balanced (a + 1) e) (hi : p.get? a = some i)
    (hs : i.flow = .loopStart) (hak : a < k) (hke : k ≤ e) (hk : k ≤ p.size) :
    p.timesSince a k = i.count.toNatClampNeg * p.timesSince (a + 1) k := by
  obtain ⟨inner, outer, hsplit⟩ := List.append_of_mem (body.mem_openBefore hi hs hak hke)
  have descending := openBefore_pairwise hk
  rw [hsplit, List.pairwise_append, List.pairwise_cons] at descending
  obtain ⟨-, ⟨houter, -⟩, hinner⟩ := descending
  have hin : ∀ start ∈ inner, a < start := fun start hmem => hinner start hmem a (by simp)
  have hsince : p.openSince (a + 1) k = inner := by
    rw [openSince, hsplit, List.filter_append, List.filter_eq_self.mpr, List.filter_eq_nil_iff.mpr,
      List.append_nil]
    · intro start hmem
      simp only [decide_eq_true_eq]
      rcases List.mem_cons.mp hmem with rfl | hmem
      · omega
      · have := houter start hmem
        omega
    · intro start hmem
      simpa using hin start hmem
  have hsince' : p.openSince a k = inner ++ [a] := by
    rw [openSince, hsplit, List.filter_append, List.filter_eq_self.mpr, List.filter_cons_of_pos,
      List.filter_eq_nil_iff.mpr]
    · intro start hmem
      have := houter start hmem
      simp only [decide_eq_true_eq]
      omega
    · simp
    · intro start hmem
      simpa using Nat.le_of_lt (hin start hmem)
  rw [timesSince, timesSince, hsince, hsince', List.map_append, List.prod_append,
    List.map_singleton, List.prod_singleton, passes_eq hi, Nat.mul_comm]

theorem share_self (p : Program κ α) (a k : Nat) : p.share a a k = 0 :=
  if_neg (by omega)

theorem share_single (ha : a < p.size) (k : Nat) :
    p.share a (a + 1) k = if k = a then 1 else 0 := by
  unfold share
  by_cases hk : k = a
  · rw [if_pos (by omega), if_pos hk, hk, timesSince_self (Nat.le_of_lt ha)]
  · rw [if_neg (by omega), if_neg hk]

/-- One stretch after another. -/
theorem Balanced.share_add (h : p.Balanced a b) (hbc : b ≤ c) (hc : c ≤ p.size) (k : Nat) :
    p.share a b k + p.share b c k = p.share a c k := by
  have hab := h.le
  unfold share
  rcases Nat.lt_or_ge k b with hkb | hbk
  · rw [if_neg (by omega : ¬ (b ≤ k ∧ k < c)), Nat.add_zero]
    by_cases hak : a ≤ k
    · rw [if_pos ⟨hak, hkb⟩, if_pos ⟨hak, by omega⟩]
    · rw [if_neg (by omega), if_neg (by omega)]
  · rw [if_neg (by omega : ¬ (a ≤ k ∧ k < b)), Nat.zero_add]
    by_cases hkc : k < c
    · rw [if_pos ⟨hbk, hkc⟩, if_pos ⟨by omega, hkc⟩, h.timesSince_eq hbk (by omega)]
    · rw [if_neg (by omega), if_neg (by omega)]

/-- The start of a loop, and its body with the end as often as it has passes. -/
theorem Balanced.share_loop (body : p.Balanced (a + 1) e) (hi : p.get? a = some i)
    (hs : i.flow = .loopStart) (he : e < p.size) (k : Nat) :
    p.share a (e + 1) k
      = (if k = a then 1 else 0) + i.count.toNatClampNeg * p.share (a + 1) (e + 1) k := by
  have hle := body.le
  unfold share
  by_cases hk : k = a
  · rw [if_pos (by omega), if_pos hk, if_neg (by omega), Nat.mul_zero, hk,
      timesSince_self (by omega)]
  · rw [if_neg hk, Nat.zero_add]
    by_cases hinside : a + 1 ≤ k ∧ k < e + 1
    · rw [if_pos (by omega), if_pos hinside,
        body.timesSince_body hi hs (by omega) (by omega) (by omega)]
    · rw [if_neg (by omega), if_neg hinside, Nat.mul_zero]

end Program

namespace Pulse

variable {I : Interpreter κ α σ} {p : Program κ α} {t t' u : Pulse κ α σ} {i j : Instruction κ α}
  {a b c e k : Nat} {visited visited' : List Nat} {loops loops' : List LoopFrame}
  {share share' : Nat → Nat}

/-! ### A stretch is passed through, or the guard steps in

`Fares` keeps both outcomes, with the visits up to there, so that stretches can be
joined without knowing in advance which of them goes through.  Once the guard has
stepped in, what is behind does not matter and the outcome stays what it is.
-/

/-- The dispatch loop comes from `t` to `t'`, and `visited` are the positions that it dispatches on
the way, the latest first. -/
inductive Visits (I : Interpreter κ α σ) (t : Pulse κ α σ) : List Nat → Pulse κ α σ → Prop
  | start : Visits I t [] t
  | next {visited : List Nat} {t' t'' : Pulse κ α σ} (h : Visits I t visited t')
      (hstep : t'.step I = .ok (.next t'')) : Visits I t (t'.cursor.ip :: visited) t''

theorem Visits.trans (h : t.Visits I visited t') (h' : t'.Visits I visited' u) :
    t.Visits I (visited' ++ visited) u := by
  induction h' with
  | start => exact h
  | next _ hstep ih => exact .next ih hstep

theorem Visits.within (h : t.Visits I visited t') : t.Within I t' := by
  induction h with
  | start => exact .start
  | next _ hstep ih => exact .next ih hstep

/-- The guard stops the script at the present instruction. -/
structure Runaway (t : Pulse κ α σ) : Prop where
  here : ∃ i, t.cursor.program.get? t.cursor.ip = some i
  tooOften : Limits.visits t.cursor.program.size < t.seen

/-- What comes of a stretch that visits positions as `share` says and leads to `b`. -/
inductive Fares (I : Interpreter κ α σ) (p : Program κ α) (share : Nat → Nat) (t : Pulse κ α σ)
    (b : Nat) (loops : List LoopFrame) : Prop
  | through {visited : List Nat} {t' : Pulse κ α σ} (visits : t.Visits I visited t')
      (stands : t'.Stands p b loops 0) (counts : ∀ k, visited.count k = share k)
  | stopped {visited : List Nat} {u : Pulse κ α σ} (visits : t.Visits I visited u)
      (runaway : u.Runaway) (early : visited.count u.cursor.ip < share u.cursor.ip)

theorem Fares.congr (h : t.Fares I p share b loops) (same : ∀ k, share k = share' k) :
    t.Fares I p share' b loops := by
  obtain rfl : share = share' := funext same
  exact h

/-- One stretch after another. -/
theorem Fares.trans (h : t.Fares I p share b loops)
    (rest : ∀ t' : Pulse κ α σ, t'.Stands p b loops 0 → t'.Fares I p share' c loops') :
    t.Fares I p (fun k => share k + share' k) c loops' := by
  cases h with
  | stopped visits runaway early => exact .stopped visits runaway (Nat.lt_add_right _ early)
  | through visits stands counts =>
      cases rest _ stands with
      | through visits' stands' counts' =>
          refine .through (visits.trans visits') stands' fun k => ?_
          rw [List.count_append, counts, counts', Nat.add_comm]
      | stopped visits' runaway early =>
          refine .stopped (visits.trans visits') runaway ?_
          rw [List.count_append, counts, Nat.add_comm]
          exact Nat.add_lt_add_left early _

/-- A single instruction visits itself, unless the guard does not let it run. -/
theorem Stands.fares (h : t.Stands p k loops 0) (hi : p.get? k = some i)
    (goesOn : t.Runs i → ∃ t', t.step I = .ok (.next t') ∧ t'.Stands p b loops' 0) :
    t.Fares I p (fun a => if a = k then 1 else 0) b loops' := by
  have here := h.here hi
  by_cases allowed : t.seen ≤ Limits.visits t.cursor.program.size
  · obtain ⟨t', hstep, stands'⟩ := goesOn ⟨here, allowed⟩
    refine .through (.next .start hstep) stands' fun a => ?_
    rw [h.ip, List.count_singleton]
    simp only [beq_iff_eq, eq_comm (a := k)]
  · refine .stopped .start ⟨⟨i, here⟩, Nat.not_le.mp allowed⟩ ?_
    rw [h.ip]
    simp

/-! ### Every balanced stretch visits its share

This is the induction on how brackets are nested, for any loops open around the
stretch.  The passes of a loop are an induction of their own, on the number that is
left, with the stretch of the body as it is for each pass.
-/

/-- A stretch visits its positions as often as is their share, with any loops open around it. -/
def FaresThrough (I : Interpreter κ α σ) (p : Program κ α) (a b : Nat) : Prop :=
  ∀ (t : Pulse κ α σ) (loops : List LoopFrame), t.Stands p a loops 0 →
    loops.length = (p.openBefore a).length → t.Fares I p (p.share a b) b loops

theorem FaresThrough.trans (h : FaresThrough I p a b) (h' : FaresThrough I p b c)
    (balanced : p.Balanced a b) (hbc : b ≤ c) (hc : c ≤ p.size) : FaresThrough I p a c := by
  intro t loops stands hloops
  have rest : ∀ t' : Pulse κ α σ, t'.Stands p b loops 0 → t'.Fares I p (p.share b c) c loops :=
    fun t' stands' => h' t' loops stands' (by rw [hloops, balanced.openBefore_eq])
  exact ((h t loops stands hloops).trans rest).congr (balanced.share_add hbc hc)

theorem faresThrough_instant (proceeds : I.Proceeds) (hi : p.get? a = some i)
    (hf : i.flow = .instant) : FaresThrough I p a (a + 1) := by
  intro t loops stands _
  refine (stands.fares hi fun run => ?_).congr
    fun k => (Program.share_single (Program.lt_size_of_get? hi) k).symm
  obtain ⟨t', hstep, stands', -⟩ := stands.instant proceeds hi run hf
  exact ⟨t', hstep, stands'⟩

/-- All the passes that a loop has left. -/
theorem passes_fare (body : FaresThrough I p (a + 1) e) (balanced : p.Balanced (a + 1) e)
    (hi : p.get? a = some i) (hs : i.flow = .loopStart) (hj : p.get? e = some j)
    (he : j.flow = .loopEnd) (depth : loops.length < 64)
    (hloops : loops.length = (p.openBefore a).length) {remaining : Int32} (hpos : 1 ≤ remaining) :
    ∀ t : Pulse κ α σ, t.Stands p (a + 1) (⟨a, remaining⟩ :: loops) 0 →
      t.Fares I p (fun k => remaining.toNatClampNeg * p.share (a + 1) (e + 1) k) (e + 1) loops := by
  have hsize := Program.lt_size_of_get? hj
  -- one pass up to the end, and the step there, back into the loop or out of it
  have pass : ∀ {frame : LoopFrame} {k' : Nat} {loops' : List LoopFrame},
      p.next? ⟨e, frame :: loops, []⟩ = some ⟨k', loops', []⟩ → ∀ t : Pulse κ α σ,
        t.Stands p (a + 1) (frame :: loops) 0 → t.Fares I p (p.share (a + 1) (e + 1)) k' loops' := by
    intro frame k' loops' hnext t stands
    have hlength : (frame :: loops).length = (p.openBefore (a + 1)).length := by
      rw [Program.openBefore_start hi hs, List.length_cons, List.length_cons, hloops]
    have last : ∀ t' : Pulse κ α σ, t'.Stands p e (frame :: loops) 0 →
        t'.Fares I p (fun k => if k = e then 1 else 0) k' loops' := by
      intro t' stands'
      refine stands'.fares hj fun run => ?_
      obtain ⟨u, hstep, stands'', -⟩ := stands'.bracket run (Or.inr he) depth
        (fun hs => absurd (he.symm.trans hs) (by simp)) hnext
      exact ⟨u, hstep, stands''⟩
    refine ((body t _ stands hlength).trans last).congr fun k => ?_
    rw [← Program.share_single hsize, balanced.share_add (Nat.le_succ e) hsize]
  refine passes_induction (P := fun remaining passes => ∀ t : Pulse κ α σ,
    t.Stands p (a + 1) (⟨a, remaining⟩ :: loops) 0 →
      t.Fares I p (fun k => passes * p.share (a + 1) (e + 1) k) (e + 1) loops) ?_ ?_ hpos
  · intro remaining _ last t stands
    have hnext :=
      (Program.Moves.close (s := ⟨e, ⟨a, remaining⟩ :: loops, []⟩) hj he rfl last).next?
    exact (pass hnext t stands).congr fun k => (Nat.one_mul _).symm
  · intro remaining passes _ more ih t stands
    have hnext :=
      (Program.Moves.again (s := ⟨e, ⟨a, remaining⟩ :: loops, []⟩) hj he rfl more).next?
    refine ((pass hnext t stands).trans ih).congr fun k => ?_
    rw [Nat.add_mul, Nat.one_mul, Nat.add_comm]

end Pulse

namespace Program

variable {I : Interpreter κ α σ} {p : Program κ α} {t t' : Pulse κ α σ} {i : Instruction κ α}
  {a b : Nat} {visited : List Nat}

/-- A script of instant instructions and loops, balanced and not nested too deep. -/
structure Timeless (p : Program κ α) : Prop where
  flows : ∀ i ∈ p.code, i.flow = .instant ∨ i.flow = .loopStart ∨ i.flow = .loopEnd
  balances : p.Balances
  depth : ∀ k ≤ p.size, (p.openBefore k).length ≤ 64

instance (p : Program κ α) : Decidable p.Timeless :=
  decidable_of_iff ((∀ i ∈ p.code, i.flow = .instant ∨ i.flow = .loopStart ∨ i.flow = .loopEnd) ∧
      p.Balances ∧ ∀ k ≤ p.size, (p.openBefore k).length ≤ 64)
    ⟨fun h => ⟨h.1, h.2.1, h.2.2⟩, fun h => ⟨h.flows, h.balances, h.depth⟩⟩

theorem Timeless.flow_of_get? (h : p.Timeless) (hi : p.get? a = some i) :
    i.flow = .instant ∨ i.flow = .loopStart ∨ i.flow = .loopEnd :=
  h.flows i (Array.mem_of_getElem? hi)

/-- A loop fares as its body does, once for each pass. -/
theorem Timeless.faresThrough_loop {e : Nat} {j : Instruction κ α} (timeless : p.Timeless)
    (body : Pulse.FaresThrough I p (a + 1) e) (balanced : p.Balanced (a + 1) e)
    (hi : p.get? a = some i) (hs : i.flow = .loopStart) (hj : p.get? e = some j)
    (he : j.flow = .loopEnd) : Pulse.FaresThrough I p a (e + 1) := by
  intro t loops stands hloops
  have hsize := lt_size_of_get? hj
  have depth : loops.length < 64 := by
    have := timeless.depth (a + 1) (lt_size_of_get? hi)
    rw [openBefore_start hi hs, List.length_cons, ← hloops] at this
    omega
  have start : ∀ {k' : Nat} {loops' : List LoopFrame},
      p.next? ⟨a, loops, []⟩ = some ⟨k', loops', []⟩ →
        t.Fares I p (fun k => if k = a then 1 else 0) k' loops' := by
    intro k' loops' hnext
    refine stands.fares hi fun run => ?_
    obtain ⟨u, hstep, stands', -⟩ :=
      stands.bracket run (Or.inl hs) (Nat.le_of_lt depth) (fun _ _ => depth) hnext
    exact ⟨u, hstep, stands'⟩
  by_cases none : i.count ≤ 0
  · refine (start (balanced.next?_skip hi hs none hj he loops)).congr fun k => ?_
    rw [balanced.share_loop hi hs hsize, passes_of_none none, Nat.zero_mul, Nat.add_zero]
  · have passes := Pulse.passes_fare body balanced hi hs hj he depth hloops (by grind : 1 ≤ i.count)
    have hnext := (Moves.enter (s := ⟨a, loops, []⟩) hi hs none).next?
    exact ((start hnext).trans passes).congr fun k => (balanced.share_loop hi hs hsize k).symm

/-- Every balanced stretch visits its positions as often as is their share. -/
theorem Timeless.faresThrough (timeless : p.Timeless) (proceeds : I.Proceeds) (h : p.Balanced a b)
    (hb : b ≤ p.size) : Pulse.FaresThrough I p a b := by
  induction h with
  | nil a =>
      intro t loops stands _
      exact .through .start stands fun k => (p.share_self a k).symm
  | plain hi hs he rest ih =>
      have single : p.Balanced _ _ := .plain hi hs he (.nil _)
      rcases timeless.flow_of_get? hi with hf | hf | hf
      · exact (Pulse.faresThrough_instant proceeds hi hf).trans (ih hb) single rest.le hb
      · exact absurd hf hs
      · exact absurd hf he
  | loop hi hs body hj he rest ihbody ihrest =>
      have whole : p.Balanced _ _ := .loop hi hs body hj he (.nil _)
      have hsize := lt_size_of_get? hj
      exact (timeless.faresThrough_loop (ihbody (Nat.le_of_lt hsize)) body hi hs hj he).trans
        (ihrest hb) whole rest.le hb

/-! ### What was dispatched is what was counted and called

Nothing on such a tape clears the count and nothing but instant instructions calls a
handler.  So from the list of visited positions both the array of the guard and the
record of the calls can be read off.
-/

/-- The call that is made when the instruction at a position is dispatched, if it is an instant one
and the interpreter lets the script go on. -/
def instantCall? (p : Program κ α) (k : Nat) : Option (HandlerCall κ α) :=
  (p.get? k).bind fun i => if i.flow = .instant then some (.instant i .proceed) else none

/-- The guard counts all that has been dispatched. -/
theorem Timeless.counted (timeless : p.Timeless) (hp : t.cursor.program = p)
    (start : Counted p.size [] t.visits) (h : t.Visits I visited t') :
    Counted p.size visited t'.visits := by
  induction h with
  | start => exact start
  | @next visited u u' h hstep ih =>
      have hu : u.cursor.program = p := h.within.program.trans hp
      obtain ⟨i, run, hvisits⟩ := (Pulse.outcome_of_step hstep).counts
      have progressless : ¬ (i.flow = .timed ∨ i.flow = .yielding) := by
        rcases timeless.flow_of_get? (hu ▸ run.here) with hf | hf | hf <;> simp [hf]
      rw [hvisits, if_neg progressless, ← hu]
      rw [← hu] at ih
      exact ih.cons run

/-- The handler is called for the instant instructions, in the order in which they are dispatched,
and for nothing else. -/
theorem Timeless.calls (timeless : p.Timeless) (proceeds : I.Proceeds)
    {t t' : Pulse κ α (σ × List (HandlerCall κ α))} (hp : t.cursor.program = p)
    (h : t.Visits I.recorded visited t') :
    t'.state.2 = t.state.2 ++ visited.reverse.filterMap p.instantCall? := by
  induction h with
  | start => simp
  | @next visited u u' h hstep ih =>
      have hu : u.cursor.program = p := h.within.program.trans hp
      rw [List.reverse_cons, List.filterMap_append, ← List.append_assoc, ← ih]
      cases Pulse.outcome_of_step hstep with
      | @proceed i state run hf call =>
          have hcall : p.instantCall? u.cursor.ip = some (.instant i .proceed) := by
            have hi : p.get? u.cursor.ip = some i := hu ▸ run.here
            simp [instantCall?, hi, hf]
          obtain ⟨state', hI⟩ := proceeds i u.state.1
          simp only [Interpreter.recorded, hI] at call
          cases call
          simp [hcall]
      | finish run hf _ _ =>
          rcases timeless.flow_of_get? (hu ▸ run.here) with hf' | hf' | hf' <;> rw [hf] at hf' <;>
            cases hf'
      | release run hold _ =>
          rcases timeless.flow_of_get? (hu ▸ run.here) with hf' | hf' | hf' <;>
            simp [Pulse.Holds, hf'] at hold
      | @jump i c run hf _ =>
          have hcall : p.instantCall? u.cursor.ip = none := by
            have hi : p.get? u.cursor.ip = some i := hu ▸ run.here
            have hne : i.flow ≠ .instant := by rcases hf with hf | hf | hf | hf <;> simp [hf]
            simp [instantCall?, hi, hne]
          simp [hcall, Pulse.counted]

/-! ### The threshold

A position is visited most often in the innermost of its loops, so to look at loops only
is enough.  The guard lets an instruction run as often as there are instructions and
once more, and one product above that is needed for it to step in.
-/

/-- No loop that is entered, together with the loops around it, has more passes than the guard
allows visits. -/
def WithinGuard (p : Program κ α) : Prop :=
  ∀ s, p.flowAt? s = some .loopStart → (∀ l ∈ s :: p.openBefore s, 0 < p.passes l) →
    ((s :: p.openBefore s).map p.passes).prod ≤ p.size + 1

/-- What is visited most often is inside of a loop. -/
theorem Timeless.withinGuard_iff (timeless : p.Timeless) :
    p.WithinGuard ↔ ∀ k < p.size, p.timesAt k ≤ p.size + 1 := by
  constructor
  · intro within k hk
    cases hopen : p.openBefore k with
    | nil => simp [timesAt, hopen]
    | cons s outer =>
        have hsplit : p.openBefore k = [] ++ s :: outer := hopen
        obtain ⟨-, houter, i, hi, hs⟩ := openBefore_split (Nat.le_of_lt hk) hsplit
        rw [← houter] at hopen
        by_cases entered : ∀ l ∈ s :: p.openBefore s, 0 < p.passes l
        · rw [timesAt, hopen]
          exact within s (by rw [flowAt?_eq hi, hs]) entered
        · -- inside of a loop that is not entered nothing is visited
          simp only [not_forall, Nat.not_lt, Nat.le_zero] at entered
          obtain ⟨l, hmem, hzero⟩ := entered
          rw [timesAt_eq_zero (hopen ▸ hmem) hzero]
          exact Nat.zero_le _
  · intro within s hflow _
    obtain ⟨i, hi, hs⟩ := exists_of_flowAt? hflow
    have hbody := openBefore_start hi hs
    have hlt : s + 1 < p.size := by
      refine Nat.lt_of_le_of_ne (lt_size_of_get? hi) fun heq => ?_
      have hclosed := timeless.balances.closed
      rw [← heq, hbody] at hclosed
      cases hclosed
    have := within (s + 1) hlt
    rwa [timesAt, hbody] at this

/-- A whole tape visits its positions as often as the loops around them have it. -/
theorem share_whole {k : Nat} (hk : k < p.size) : p.share 0 p.size k = p.timesAt k := by
  rw [share, if_pos ⟨Nat.zero_le k, hk⟩, timesSince_zero]

theorem Timeless.fares (timeless : p.Timeless) (proceeds : I.Proceeds) (state : σ) :
    (Pulse.ofCursor (.ofProgram p) state).Fares I p (p.share 0 p.size) p.size [] := by
  have stands : (Pulse.ofCursor (.ofProgram p) state).Stands p 0 [] 0 :=
    ⟨rfl, rfl, rfl, rfl, rfl, (Cursor.ofProgram_ready p).sound rfl _⟩
  exact timeless.faresThrough proceeds timeless.balances.balanced (Nat.le_refl _) _ [] stands rfl

/-- The first update comes to what the dispatch loop comes to, from any of its points on. -/
theorem update_of_visits {running : Bool} {c : Cursor κ α} {state state' : σ}
    (visits : (Pulse.ofCursor (.ofProgram p) state).Visits I visited t)
    (hstep : t.step I = .ok (.done running c state')) :
    (Cursor.ofProgram p).update I state = .ok (running, c, state') := by
  obtain ⟨m, takes⟩ := visits.within.takes (.done hstep)
  exact Cursor.Reachable.start.update_eq rfl takes

/--
**Where the guard steps in.**  A script of instant instructions and balanced loops is
over after its first update.  It is not stopped just when for every loop that is entered
the passes of this loop and of the loops around it, multiplied, are at most one more than
the instructions of the tape; then every instant instruction has run exactly as often as
the passes of the loops around it come to.  Otherwise it is the guard that has stopped
it, at the first visit that is one too many.
-/
theorem guard_threshold (timeless : p.Timeless) (short : p.size < 2 ^ 32 - 2)
    (proceeds : I.Proceeds) (state : σ) : ∃ c state' calls visited t,
    (Cursor.ofProgram p).update I.recorded (state, []) = .ok (false, c, state', calls) ∧
      (Pulse.ofCursor (.ofProgram p) (state, [])).Visits I.recorded visited t ∧
      t.step I.recorded = .ok (.done false c (state', calls)) ∧
      calls = visited.reverse.filterMap p.instantCall? ∧
      (c.fault = none ↔ p.WithinGuard) ∧
      (c.fault = none → ∀ k, p.flowAt? k = some .instant → visited.count k = p.timesAt k) ∧
      (c.fault ≠ none →
        ∃ position, c.fault = some (.runawayDispatch position (p.size + 2))) := by
  have recorded := proceeds.recorded
  have counted : ∀ {visited t},
      (Pulse.ofCursor (.ofProgram p) (state, [])).Visits I.recorded visited t →
      Counted p.size visited t.visits := timeless.counted rfl (noVisits_counted p)
  have calls : ∀ {visited t}, (Pulse.ofCursor (.ofProgram p) (state, [])).Visits I.recorded visited
      t → t.state.2 = visited.reverse.filterMap p.instantCall? := fun visits =>
    (timeless.calls proceeds rfl visits).trans (List.nil_append _)
  have hlimit := visits_of_short short
  cases timeless.fares recorded (state, []) with
  | @through visited t visits stands counts =>
      have hoff : t.cursor.program.get? t.cursor.ip = none := by
        rw [stands.program, stands.ip]
        exact Array.getElem?_eq_none (Nat.le_refl _)
      have hstep := Pulse.step_offTape (I := I.recorded) hoff
      have faultless : t.cursor.finish.fault = none := stands.sound.faultless
      have times : ∀ k < p.size, visited.count k = p.timesAt k := fun k hk =>
        (counts k).trans (share_whole hk)
      refine ⟨_, t.state.1, t.state.2, visited, t, update_of_visits visits hstep, visits, hstep,
        calls visits, ?_, fun _ k hk => ?_, fun hfault => absurd faultless hfault⟩
      · refine iff_of_true faultless (timeless.withinGuard_iff.mpr fun k hk => ?_)
        rw [← times k hk, ← hlimit]
        exact (counted visits).within k
      · obtain ⟨i, hi, -⟩ := exists_of_flowAt? hk
        exact times k (lt_size_of_get? hi)
  | @stopped visited u visits runaway early =>
      have hu : u.cursor.program = p := visits.within.program
      obtain ⟨i, hi⟩ := runaway.here
      have hip : u.cursor.ip < p.size := hu ▸ lt_size_of_get? hi
      have tooOften := runaway.tooOften
      have hseen : u.seen = visited.count u.cursor.ip + 1 :=
        Counted.seen_eq (hu ▸ counted visits) (hu ▸ hip)
      have hwithin := (counted visits).within u.cursor.ip
      have hcount : u.seen = p.size + 2 := by
        rw [hu] at tooOften
        omega
      have hstep := Pulse.step_runaway (I := I.recorded) hi tooOften
      refine ⟨_, u.state.1, u.state.2, visited, u, update_of_visits visits hstep, visits, hstep,
        calls visits, iff_of_false (by simp [Cursor.abort]) fun within => ?_,
        by simp [Cursor.abort], fun _ => ⟨u.cursor.ip, by simp [Cursor.abort, hcount]⟩⟩
      have := timeless.withinGuard_iff.mp within u.cursor.ip hip
      rw [share_whole hip] at early
      omega

/-- A loop in a loop, with just as many passes as the guard allows. -/
def justEnough : Program Bullet.Kind Float32 :=
  .ofInstructions [.loopStart 2, .loopStart 3, Bullet.Command.setSpeed 1.0, .loopEnd, .loopEnd]

/-- The same number of instructions, with one pass more. -/
def oneTooMany : Program Bullet.Kind Float32 :=
  .ofInstructions [.loopStart 7, .loopStart 1, Bullet.Command.setSpeed 1.0, .loopEnd, .loopEnd]

theorem guard_threshold_justEnough :
    let I : Interpreter Bullet.Kind Float32 _ := (⟨[], #[], .keep⟩ : Probe Bullet.Kind).interpreter
    justEnough.Timeless ∧ oneTooMany.Timeless ∧ justEnough.size < 2 ^ 32 - 2 ∧ I.Proceeds ∧
      (∃ c log calls visited t,
        (Cursor.ofProgram justEnough).update I.recorded (⟨#[], 0⟩, []) =
          .ok (false, c, log, calls) ∧
        (Pulse.ofCursor (.ofProgram justEnough) (⟨#[], 0⟩, [])).Visits I.recorded visited t ∧
        c.fault = none ∧ visited.count 2 = 6) ∧
      ∃ c log calls position,
        (Cursor.ofProgram oneTooMany).update I.recorded (⟨#[], 0⟩, []) =
          .ok (false, c, log, calls) ∧
        c.fault = some (.runawayDispatch position 7) := by
  intro I
  have timeless : justEnough.Timeless := by decide +kernel
  have timeless' : oneTooMany.Timeless := by decide +kernel
  have short : justEnough.size < 2 ^ 32 - 2 := by decide
  have proceeds : I.Proceeds := (steady_probe .keep).instant
  obtain ⟨c, log, calls, visited, t, hupdate, visits, -, -, hfault, times, -⟩ :=
    guard_threshold timeless short proceeds ⟨#[], 0⟩
  have within : justEnough.WithinGuard := timeless.withinGuard_iff.mpr (by decide +kernel)
  have faultless := hfault.mpr within
  obtain ⟨c', log', calls', -, -, hupdate', -, -, -, hfault', -, stopped⟩ :=
    guard_threshold timeless' (by decide) proceeds ⟨#[], 0⟩
  have beyond : ¬ oneTooMany.WithinGuard :=
    fun within => absurd (timeless'.withinGuard_iff.mp within 2 (by decide)) (by decide +kernel)
  obtain ⟨position, hposition⟩ := stopped fun hnone => beyond (hfault'.mp hnone)
  exact ⟨timeless, timeless', short, proceeds,
    ⟨c, log, calls, visited, t, hupdate, visits, faultless, times faultless 2 (by decide +kernel)⟩,
    c', log', calls', position, hupdate', hposition⟩

end Program

end Barrage
