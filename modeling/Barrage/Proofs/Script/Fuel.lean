/-
The steps that `update` allows always suffice.

`Proofs/Script/Termination.lean` shows that no run of control goes on forever, so none
comes back to a state that it has been in.  What is left is to count.  A control state
that a program can come to is a position, at most `loopDepth` frames and at most
`callDepth` return addresses; `code` writes these down as an element of a finite type,
and `Program.controlStates` is no less than the size of that type.

So `later s`, the codes of the states that come after `s`, becomes smaller with every
step, and a tick takes no more rounds than it has elements.
-/
import Mathlib.Data.Fintype.BigOperators
import Mathlib.Data.Fintype.Option
import Mathlib.Data.Fintype.Pi
import Mathlib.Data.Fintype.Prod
import Barrage.Bullet.Vocabulary
import Barrage.Proofs.Script.Termination
import Barrage.Script.Probe
import Barrage.Single

namespace Barrage

variable {κ α σ : Type} [Vocabulary κ] [Scalar α]

/-! ### There are finitely many control states

The bound is counted for a type and not for the states that come up in a run, so it
depends on the length of the tape and the two limits only.  That the code of a state is
unambiguous needs what is known of the stacks: their depth, that they refer to the tape,
and that the passes left of a loop are a positive number of 32 bits.
-/

/-- A list of at most `n` elements, read off place by place. -/
def places {β γ : Type} (f : β → γ) (n : Nat) (l : List β) : Fin n → Option γ :=
  fun k => l[k.val]?.map f

theorem places_inj {β γ : Type} {f : β → γ} {n : Nat} {l l' : List β}
    (hl : l.length ≤ n) (hl' : l'.length ≤ n)
    (hf : ∀ x ∈ l, ∀ y ∈ l', f x = f y → x = y) (h : places f n l = places f n l') : l = l' := by
  refine List.ext_getElem? fun k => ?_
  by_cases hk : k < n
  · have hplace : l[k]?.map f = l'[k]?.map f := congrFun h ⟨k, hk⟩
    cases hx : l[k]? with
    | none =>
        rw [hx, Option.map_none, eq_comm, Option.map_eq_none_iff] at hplace
        exact hplace.symm
    | some x =>
        rw [hx, Option.map_some, eq_comm, Option.map_eq_some_iff] at hplace
        obtain ⟨y, hy, hxy⟩ := hplace
        rw [hy, hf x (List.mem_of_getElem? hx) y (List.mem_of_getElem? hy) hxy.symm]
  · rw [List.getElem?_eq_none (by omega), List.getElem?_eq_none (by omega)]

/-- What there is to say about a control state on a tape of `n` instructions. -/
abbrev Control.Code (n : Nat) : Type :=
  Fin (n + 1) × (Fin Limits.loopDepth → Option (Fin (n + 1) × Fin (2 ^ 32))) ×
    (Fin Limits.callDepth → Option (Fin (n + 1)))

/-- A control state on a tape of `n` instructions. -/
def Control.code (n : Nat) (s : Control) : Control.Code n :=
  (Fin.ofNat (n + 1) s.ip,
    places (fun f => (Fin.ofNat (n + 1) f.start, f.remaining.toBitVec.toFin)) _ s.loops,
    places (Fin.ofNat (n + 1)) _ s.calls)

private theorem ofNat_inj {n a b : Nat} (ha : a ≤ n) (hb : b ≤ n)
    (h : Fin.ofNat (n + 1) a = Fin.ofNat (n + 1) b) : a = b := by
  have := congrArg Fin.val h
  simp only [Fin.ofNat_eq_cast, Fin.val_natCast] at this
  rwa [Nat.mod_eq_of_lt (by omega), Nat.mod_eq_of_lt (by omega)] at this

theorem Control.code_inj {p : Program κ α} {s s' : Control} (h : p.CanReach s)
    (h' : p.CanReach s') (hcode : s.code p.size = s'.code p.size) : s = s' := by
  have hs := h.onTape
  have hs' := h'.onTape
  simp only [code, Prod.mk.injEq] at hcode
  obtain ⟨hip, hloops, hcalls⟩ := hcode
  have eip : s.ip = s'.ip := ofNat_inj hs.ip hs'.ip hip
  have eloops : s.loops = s'.loops := by
    refine places_inj h.fits.loops h'.fits.loops ?_ hloops
    intro f hf f' hf' hff'
    simp only [Prod.mk.injEq] at hff'
    have hstart := ofNat_inj (Nat.le_of_lt (hs.loops f hf).start_lt)
      (Nat.le_of_lt (hs'.loops f' hf').start_lt) hff'.1
    have hremaining : f.remaining = f'.remaining :=
      Int32.toBitVec_inj.mp (BitVec.eq_of_toFin_eq hff'.2)
    cases f
    cases f'
    simp_all
  have ecalls : s.calls = s'.calls := by
    refine places_inj h.fits.calls h'.fits.calls ?_ hcalls
    exact fun r hr r' hr' hrr' => ofNat_inj (hs.calls r hr).le_size (hs'.calls r' hr').le_size hrr'
  cases s
  cases s'
  simp_all

private theorem card_code (n : Nat) :
    Fintype.card (Control.Code n) = (n + 1) *
      (((n + 1) * 2 ^ 32 + 1) ^ Limits.loopDepth * (n + 1 + 1) ^ Limits.callDepth) := by
  rw [Fintype.card_prod, Fintype.card_prod, Fintype.card_fun, Fintype.card_fun, Fintype.card_option,
    Fintype.card_option, Fintype.card_prod]
  simp only [Fintype.card_fin]

/-- There are fewer codes than the number of steps that `update` allows. -/
theorem card_code_lt (p : Program κ α) :
    Fintype.card (Control.Code p.size) + 1 ≤ p.controlStates := by
  unfold Program.controlStates
  rw [Nat.pow_eq]
  generalize hx : (p.size + 2) * 0x100000000 = x
  have hbig : 2 ≤ x := by omega
  have hcard :
      Fintype.card (Control.Code p.size) ≤ x * (x ^ Limits.loopDepth * x ^ Limits.callDepth) := by
    rw [card_code]
    refine Nat.mul_le_mul (by omega) (Nat.mul_le_mul ?_ ?_)
    · exact Nat.pow_le_pow_left (by omega) _
    · exact Nat.pow_le_pow_left (by omega) _
  have hpow : x ^ (Limits.loopDepth + Limits.callDepth + 2)
      = x * (x * (x ^ Limits.loopDepth * x ^ Limits.callDepth)) := by
    rw [← Nat.pow_add, Nat.pow_add_one', Nat.pow_add_one']
  have hpos : 0 < x * (x ^ Limits.loopDepth * x ^ Limits.callDepth) :=
    Nat.mul_pos (by omega) (Nat.mul_pos (Nat.pow_pos (by omega)) (Nat.pow_pos (by omega)))
  rw [hpow]
  have := Nat.mul_le_mul_right (x * (x ^ Limits.loopDepth * x ^ Limits.callDepth)) hbig
  omega

/-! ### With every move less is to come

The states after a state form a finite set, and the state after the next move is not in
the set of its own successors because no run comes back to where it has been.  So each
move makes the set strictly smaller.
-/

namespace Program

variable {p : Program κ α}

/-- `s'` comes some steps after `s`. -/
def After (p : Program κ α) (s' s : Control) : Prop :=
  Relation.TransGen p.Follows s' s

open Classical in
/-- The codes of the control states that come after `s`. -/
noncomputable def later (p : Program κ α) (s : Control) : Finset (Control.Code p.size) :=
  Finset.univ.filter fun k => ∃ s', p.After s' s ∧ s'.code p.size = k

theorem CanReach.after {s s' : Control} (h : p.CanReach s) (hafter : p.After s' s) :
    p.CanReach s' := by
  induction hafter using Relation.TransGen.head_induction_on with
  | single hlast => exact .next h hlast.next hlast.fits'
  | head hlast _ ih => exact .next ih hlast.next hlast.fits'

/-- A run never comes back to a state that it has been in. -/
theorem Ends.not_after {s : Control} (h : p.Ends s) : ¬ p.After s s := by
  have htrans : Acc (Relation.TransGen p.Follows) s := Acc.transGen h
  induction htrans with
  | intro s _ ih => exact fun hloop => ih s hloop (h.inv_of_transGen hloop) hloop

/-- With every move there is less to come. -/
theorem later_lt {s s' : Control} (h : p.CanReach s) (hfollows : p.Follows s' s) :
    (p.later s').card < (p.later s).card := by
  have h' : p.CanReach s' := .next h hfollows.next hfollows.fits'
  refine Finset.card_lt_card ?_
  rw [Finset.ssubset_iff_of_subset]
  · refine ⟨s'.code p.size, ?_, ?_⟩
    · simp only [later, Finset.mem_filter, Finset.mem_univ, true_and]
      exact ⟨s', Relation.TransGen.single hfollows, rfl⟩
    · simp only [later, Finset.mem_filter, Finset.mem_univ, true_and, not_exists, not_and]
      intro s'' hafter hcode
      rw [Control.code_inj (h'.after hafter) h' hcode] at hafter
      exact h'.ends.not_after hafter
  · intro k hk
    simp only [later, Finset.mem_filter, Finset.mem_univ, true_and] at hk ⊢
    obtain ⟨s'', hafter, hcode⟩ := hk
    exact ⟨s'', Relation.TransGen.tail hafter hfollows, hcode⟩

theorem later_le (s : Control) : (p.later s).card + 1 ≤ p.controlStates :=
  Nat.le_trans (Nat.succ_le_succ (Finset.card_le_univ _)) (card_code_lt p)

end Program

/-! ### Every tick ends

A step of the dispatch loop after which the tick goes on is a move of control, so a tick
has no more of them than there are states to come.  `Ticks` is the loop without any
bound; it is there to say what `update` would do if it did not count.
-/

/-- From where control can be, a tick takes no more rounds than there are states to come. -/
theorem Pulse.exists_takes (I : Interpreter κ α σ) {p : Program κ α} (t : Pulse κ α σ)
    (hp : t.cursor.program = p) (hreach : p.CanReach t.cursor.control) :
    ∃ n ≤ (p.later t.cursor.control).card + 1, ∃ o, Takes I n t o := by
  induction hcard : (p.later t.cursor.control).card using Nat.strong_induction_on
    generalizing t with
  | _ card ih =>
  cases hstep : t.step I with
  | error e => exact ⟨1, by omega, _, .crash hstep⟩
  | ok r =>
      cases r with
      | done running cursor state => exact ⟨1, by omega, _, .done hstep⟩
      | next t' =>
          obtain ⟨hsame, hnext, hfits⟩ := (outcome_of_step hstep).leads
          rw [hp] at hnext
          have hfits' := hfits hreach.fits
          have hless := Program.later_lt hreach ⟨hnext, hreach.fits, hfits'⟩
          obtain ⟨n, hn, o, htakes⟩ :=
            ih _ (hcard ▸ hless) t' (hsame.trans hp) (.next hreach hnext hfits') rfl
          exact ⟨n + 1, by omega, o, .next hstep htakes⟩

/-- One update, as a loop without any bound: `n` rounds, and what comes of them. -/
inductive Cursor.Ticks (I : Interpreter κ α σ) (c : Cursor κ α) (state : σ) :
    Nat → Except Crash (Bool × Cursor κ α × σ) → Prop
  | finished (h : c.finished = true) : Ticks I c state 0 (.ok (false, c, state))
  | offTape (h : c.finished = false) (hip : c.program.size ≤ c.ip) :
      Ticks I c state 0 (.ok (false, c.finish, state))
  | dispatch {n : Nat} {o : Except Crash (Bool × Cursor κ α × σ)} (h : c.finished = false)
      (hip : c.ip < c.program.size) (takes : Pulse.Takes I n (.ofCursor c state) o) :
      Ticks I c state n o

/-- The bound of `update` makes no difference: it does what the loop without a bound does. -/
theorem Cursor.Reachable.ticks {p : Program κ α} {c : Cursor κ α} (h : Reachable p c)
    (I : Interpreter κ α σ) (state : σ) :
    ∃ n ≤ p.controlStates, c.Ticks I state n (c.update I state) := by
  obtain ⟨hp, hreach⟩ := h.canReach
  unfold Cursor.update
  split
  · rename_i hfinished
    exact ⟨0, Nat.zero_le _, .finished hfinished⟩
  · rename_i hfinished
    have hfinished' : c.finished = false := by simpa using hfinished
    split
    · rename_i hip
      exact ⟨0, Nat.zero_le _, .offTape hfinished' hip⟩
    · rename_i hip
      obtain ⟨n, hn, o, htakes⟩ := Pulse.exists_takes I (.ofCursor c state) hp hreach
      have hbound : n ≤ p.controlStates := Nat.le_trans hn (Program.later_le _)
      refine ⟨n, hbound, ?_⟩
      rw [Pulse.run_of_takes htakes (hp.symm ▸ hbound)]
      exact .dispatch hfinished' (Nat.lt_of_not_le hip) htakes

/-- An interpreter none of whose handlers crashes. -/
structure Interpreter.Answers (I : Interpreter κ α σ) : Prop where
  instant : ∀ i state, ∃ answer, I.instant i state = .ok answer
  timed : ∀ i phase scratch state, ∃ answer, I.timed i phase scratch state = .ok answer

omit [Vocabulary κ] in
/-- A probe answers by its plan, so it always does. -/
theorem Probe.answers [DecidableEq κ] (p : Probe κ) :
    (p.interpreter : Interpreter κ α (ProbeLog κ α)).Answers where
  instant _ _ := ⟨_, rfl⟩
  timed i phase scratch log := by
    cases phase with
    | run frame duration t => exact ⟨_, rfl⟩
    | finish => cases hplan : p.scratch <;> simp [Probe.interpreter, hplan]

/-- A tick crashes only where a handler does. -/
theorem Pulse.Takes.answered {I : Interpreter κ α σ} (hI : I.Answers) {n : Nat} {t : Pulse κ α σ}
    {o : Except Crash (Bool × Cursor κ α × σ)} (h : Takes I n t o) : ∃ r, o = .ok r := by
  induction h with
  | done _ => exact ⟨_, rfl⟩
  | next _ _ ih => exact ih
  | crash h =>
      rcases step_outcome I _ with ⟨r, hr, -⟩ | ⟨e, -, hcrash⟩
      · exact absurd (hr.symm.trans h) (by simp)
      · rcases hcrash with ⟨-, call⟩ | ⟨-, call⟩
        · obtain ⟨answer, hanswer⟩ := hI.instant _ _
          exact absurd (hanswer.symm.trans call) (by simp)
        · obtain ⟨answer, hanswer⟩ := hI.timed _ _ _ _
          exact absurd (hanswer.symm.trans call) (by simp)

/--
**Every update returns.**  From every cursor that updates can lead to, and whatever the
interpreter answers, the dispatch loop ends after finitely many rounds, of which
`controlStates` is a bound, and `update` returns what it ends with.  It is only ever
without a result where a handler is.
-/
theorem update_returns {p : Program κ α} {c : Cursor κ α} (h : c.Reachable p)
    (I : Interpreter κ α σ) (state : σ) :
    (∃ n ≤ p.controlStates, c.Ticks I state n (c.update I state)) ∧
      (I.Answers → ∃ running c' state', c.update I state = .ok (running, c', state')) := by
  obtain ⟨n, hn, hticks⟩ := h.ticks I state
  refine ⟨⟨n, hn, hticks⟩, fun hI => ?_⟩
  generalize c.update I state = o at hticks
  cases hticks with
  | finished _ => exact ⟨false, c, state, rfl⟩
  | offTape _ _ => exact ⟨false, c.finish, state, rfl⟩
  | dispatch _ _ htakes =>
      obtain ⟨⟨running, c', state'⟩, hr⟩ := htakes.answered hI
      exact ⟨running, c', state', hr⟩

/-- A loop opened inside a subroutine is sent back into it from outside: `fan` leaves its loop open,
and the end of that loop stands in `outer`. -/
def leakyLoop : Program Bullet.Kind Float32 :=
  .assemble
    #[.call "outer", .stop, .call "fan", .loopEnd, .ret, .loopStart 3, .wait 0, .ret]
    [("outer", 2), ("fan", 5)] (by decide)

theorem update_returns_leakyLoop :
    let I : Interpreter Bullet.Kind Float32 _ := (⟨[], #[], .keep⟩ : Probe Bullet.Kind).interpreter
    (Cursor.ofProgram leakyLoop).Reachable leakyLoop ∧ I.Answers ∧
      (∃ n ≤ leakyLoop.controlStates, (Cursor.ofProgram leakyLoop).Ticks I ⟨#[], 0⟩ n
        ((Cursor.ofProgram leakyLoop).update I ⟨#[], 0⟩)) ∧
      ∃ running c' log,
        (Cursor.ofProgram leakyLoop).update I ⟨#[], 0⟩ = .ok (running, c', log) := by
  obtain ⟨ticks, returns⟩ := update_returns (.start : (Cursor.ofProgram leakyLoop).Reachable _)
    (⟨[], #[], .keep⟩ : Probe Bullet.Kind).interpreter ⟨#[], 0⟩
  exact ⟨.start, Probe.answers _, ticks, returns (Probe.answers _)⟩

end Barrage
