/-
A shuffled spread is the plain spread in another order.

The shuffled spread looks its angles up by their positions in a list that the host has
shuffled.  If the shuffle is a permutation then no position is out of range, and what is
looked up is the angles in another order, so the two spreads fire the same bullets in
another order.  Both volleys are off by the same angle if the draws of the jitter agree.

The emitter that is left behind counts the bullets that were accepted.  So the order
could matter to it, unless the host judges each bullet by itself, whatever it was asked
before; this is `Host.Impartial`.  The world holds chance as well as the bullets, so it is
asked for besides that drawing from the one does not fill up the other.
-/
import Barrage.Proofs.Host.Risk
import Barrage.Proofs.Shot.Volley

namespace Barrage

variable {α η : Type} [Scalar α]

/-- The host takes up the bullet. -/
def Host.accepts (host : Host α η) (launch : Bullet.Launch α) (h : η) : Bool :=
  (host.spawnBullet launch h).1.isSome

/-- Whether a bullet is taken up depends neither on the bullets that were asked for before it nor
on chance. -/
structure Host.Impartial (host : Host α η) : Prop where
  spawnBullet : ∀ launch earlier h,
    host.accepts launch (host.spawnBullet earlier h).2 = host.accepts launch h
  uniform : ∀ launch low high h x h', host.uniform low high h = .ok (x, h') →
    host.accepts launch h' = host.accepts launch h
  shuffle : ∀ launch items h,
    host.accepts launch (host.shuffle items h).2 = host.accepts launch h

/-- A recorder takes up every bullet, or none. -/
theorem Recorder.host_impartial (setting : Setting Float32) (silent : Bool) :
    (Recorder.host setting silent).Impartial := by
  have accepts : ∀ launch r, (Recorder.host setting silent).accepts launch r = !r.full := by
    intro launch r
    show (spawnBullet launch r).1.isSome = !r.full
    unfold spawnBullet
    split <;> simp_all
  constructor
  · intro launch earlier r
    rw [accepts, accepts]
    show (!(spawnBullet earlier r).2.full) = _
    unfold spawnBullet
    split <;> rfl
  · intro launch low high r x r' hdraw
    obtain ⟨⟨y, chance⟩, -, hdraw⟩ := bind_eq_ok.mp hdraw
    cases hdraw
    rw [accepts, accepts]
    rfl
  · intro launch items r
    rw [accepts, accepts]
    rfl

namespace Shot

variable {host : Host α η} {e : Emitter α}

/-! ### An impartial host accepts the same bullets in any order

The number of accepted bullets is a count over the volley, and counts do not depend on
the order.  What has to be shown is that the host still judges by the same rule after
each bullet it has taken up.
-/

/-- Two volleys come to the same but for the order of their bullets: they ask for the same bullets
and leave the same emitter, or both crash, and then with a draw of the jitter. -/
inductive Reorders (host : Host α η) (e : Emitter α) :
    (shuffled plain : Except Crash (Emitter α × η × List (HostCall α))) → Prop
  | fired {e' : Emitter α} {h h₁ : η} {calls calls₁ : List (HostCall α)}
      (requests :
        (calls.filterMap HostCall.request?).Perm (calls₁.filterMap HostCall.request?)) :
      Reorders host e (.ok (e', h, calls)) (.ok (e', h₁, calls₁))
  | crashed (pending : (e.jitter == 0.0) = false) {h : η} {crash : Crash}
      (draw : host.uniform (-e.jitter) e.jitter h = .error crash) :
      Reorders host e (.error crash) (.error crash)

omit [Scalar α] in
/-- What is picked in the order of a permutation of all positions is a permutation. -/
theorem pick_of_perm {items : List α} {order : List Nat}
    (permuted : order.Perm (List.range items.length)) :
    ∃ picked, pick items order = .ok picked ∧ picked.Perm items := by
  cases hpick : pick items order with
  | error crash =>
      obtain ⟨-, k, hmem, hstray⟩ := pick_eq_error hpick
      have := List.mem_range.mp (permuted.mem_iff.mp hmem)
      omega
  | ok picked =>
      have inRange : (List.range items.length).map (items[·]?) = items.map some := by
        refine List.ext_getElem (by simp) fun k hk hk' => ?_
        simp only [List.length_map] at hk'
        simp [hk']
      have somes : (picked.map some).Perm (items.map some) := by
        rw [pick_eq_ok hpick, ← inRange]
        exact permuted.map _
      exact ⟨picked, rfl, (List.map_perm_map_iff (Option.some_injective _)).mp somes⟩

/-- A bullet is counted if the host accepts it, and the host then judges the others as before. -/
theorem launch_accepted (impartial : host.Impartial) {judge : Bullet.Launch α → Bool} {h : η}
    (judged : ∀ launch, host.accepts launch h = judge launch) (deviation : α) (r : Round α)
    (e : Emitter α) :
    (launch host (e.baseAngle + r.angle + deviation) r e h).1 = { e with
        fired := e.fired + (e.request? host.toSetting deviation r).toList.countP judge } ∧
      ∀ other, host.accepts other
        (launch host (e.baseAngle + r.angle + deviation) r e h).2 = judge other := by
  unfold launch Emitter.request?
  cases host.sprite? r.template r.color with
  | none => exact ⟨rfl, judged⟩
  | some sprite =>
      dsimp only
      refine ⟨?_, fun other => (impartial.spawnBullet other _ h).trans (judged other)⟩
      rw [Option.map_some, Option.toList_some, List.countP_singleton, ← judged]
      unfold Host.accepts
      split <;> rfl

/-- An impartial host accepts of a volley those bullets that it accepts at its start. -/
theorem launchAll_accepted (impartial : host.Impartial) {judge : Bullet.Launch α → Bool} {h : η}
    (judged : ∀ launch, host.accepts launch h = judge launch) (deviation : α)
    (rounds : List (Round α)) (e : Emitter α) :
    (launchAll host deviation rounds e h).1 = { e with
      fired := e.fired + (rounds.filterMap (e.request? host.toSetting deviation)).countP judge } := by
  induction rounds generalizing e h with
  | nil => rfl
  | cons r rest ih =>
      obtain ⟨first, judged'⟩ := launch_accepted impartial judged deviation r e
      rw [launchAll_cons, ih judged', first, filterMap_cons_toList, List.countP_append,
        ← Nat.add_assoc]
      rfl

/-! ### One draw of the jitter comes before all bullets

Both volleys are off by what is drawn once, in the world before the first bullet.  For
the shuffled one that is the world after the shuffle, which is why the draws have to
agree there.
-/

/-- Bullets that are off by the same angle are asked for in any order, with the same outcome. -/
theorem launchAll_reorders (impartial : host.Impartial) {rounds rounds₁ : List (Round α)}
    (reordered : rounds.Perm rounds₁) (deviation : α) {s s₁ : η × List (HostCall α)}
    (alike : ∀ launch, host.accepts launch s.1 = host.accepts launch s₁.1)
    (quiet : s.2.filterMap HostCall.request? = []) (quiet₁ : s₁.2.filterMap HostCall.request? = [])
    (calm : Emitter α) :
    Reorders host e (.ok (launchAll host.recorded deviation rounds calm s))
      (.ok (launchAll host.recorded deviation rounds₁ calm s₁)) := by
  obtain ⟨answers, answered, calls, -⟩ :=
    @launchAll_recorded _ _ _ host deviation rounds calm s
  obtain ⟨answers₁, answered₁, calls₁, -⟩ :=
    @launchAll_recorded _ _ _ host deviation rounds₁ calm s₁
  have requests := reordered.filterMap (calm.request? host.toSetting deviation)
  have emitter : (launchAll host.recorded deviation rounds calm s).1 =
      (launchAll host.recorded deviation rounds₁ calm s₁).1 := by
    -- Both worlds judge alike, and of a permutation as many bullets are accepted.
    obtain ⟨judge, judged⟩ : ∃ judge : Bullet.Launch α → Bool,
        ∀ launch, host.accepts launch s₁.1 = judge launch := ⟨_, fun _ => rfl⟩
    have counted :=
      launchAll_accepted impartial (fun launch => (alike launch).trans (judged launch))
      deviation rounds calm
    have counted₁ := launchAll_accepted impartial judged deviation rounds₁ calm
    rw [launchAll_unrecorded] at counted counted₁
    refine counted.trans (Eq.trans ?_ counted₁.symm)
    rw [requests.countP_eq]
  generalize launchAll host.recorded deviation rounds calm s = left at calls emitter ⊢
  generalize launchAll host.recorded deviation rounds₁ calm s₁ = left₁ at calls₁ emitter ⊢
  obtain ⟨e', h', made⟩ := left
  obtain ⟨e₁', h₁', made₁⟩ := left₁
  cases emitter
  refine .fired ?_
  rw [show made = _ from calls, show made₁ = _ from calls₁, requests_zipWith quiet answered,
    requests_zipWith quiet₁ answered₁]
  exact requests

/-- If the jitter is drawn alike, bullets are fired in any order with the same outcome. -/
theorem fire_reorders (impartial : host.Impartial) {rounds rounds₁ : List (Round α)}
    (reordered : rounds.Perm rounds₁) {s s₁ : η × List (HostCall α)}
    (alike : ∀ launch, host.accepts launch s.1 = host.accepts launch s₁.1)
    (sameDraw : (e.jitter == 0.0) = false →
      Prod.fst <$> host.uniform (-e.jitter) e.jitter s.1 =
        Prod.fst <$> host.uniform (-e.jitter) e.jitter s₁.1)
    (quiet : s.2.filterMap HostCall.request? = [])
    (quiet₁ : s₁.2.filterMap HostCall.request? = []) :
    Reorders host e (fire host.recorded rounds e s) (fire host.recorded rounds₁ e s₁) := by
  unfold fire
  dsimp only
  by_cases calm : (e.jitter == 0.0) = true
  · rw [if_pos calm, if_pos calm]
    exact launchAll_reorders impartial reordered 0.0 alike quiet quiet₁ _
  · rw [if_neg calm, if_neg calm]
    have pending : (e.jitter == 0.0) = false := by simpa using calm
    have same := sameDraw pending
    simp only [Host.recorded]
    cases hdraw : host.uniform (-e.jitter) e.jitter s.1 with
    | error crash =>
        cases hdraw₁ : host.uniform (-e.jitter) e.jitter s₁.1 with
        | error crash₁ =>
            rw [hdraw, hdraw₁] at same
            cases same
            exact .crashed pending hdraw
        | ok drawn => simp [hdraw, hdraw₁] at same
    | ok drawn =>
        cases hdraw₁ : host.uniform (-e.jitter) e.jitter s₁.1 with
        | error crash₁ => simp [hdraw, hdraw₁] at same
        | ok drawn₁ =>
            obtain ⟨deviation, h⟩ := drawn
            obtain ⟨deviation₁, h₁⟩ := drawn₁
            rw [hdraw, hdraw₁] at same
            cases same
            refine launchAll_reorders impartial reordered deviation (fun launch => ?_) ?_ ?_ _
            · rw [impartial.uniform launch _ _ _ _ _ hdraw,
                impartial.uniform launch _ _ _ _ _ hdraw₁]
              exact alike launch
            · simp [quiet, HostCall.request?]
            · simp [quiet₁, HostCall.request?]

/--
**A shuffled spread is a reordering of the plain spread.**  Whatever is in the operands of
an instruction, all positions of the shuffle are in range, and what is looked up there is
a permutation of the angles.  As the one kind or the other, and in worlds that accept the
same bullets and from which the jitter is drawn alike, the instruction asks for the same
bullets up to their order and leaves the same emitter, or the draw crashes both.
-/
theorem shuffled_reorders (impartial : host.Impartial)
    (permutes : ∀ items h, (host.shuffle items h).1.Perm items) (i : Instruction Kind α)
    (e : Emitter α) {h h₁ : η}
    (alike : ∀ launch, host.accepts launch h = host.accepts launch h₁)
    (sameDraw : (e.jitter == 0.0) = false →
      Prod.fst <$> host.uniform (-e.jitter) e.jitter
          (host.shuffle (List.range i.count.toNatClampNeg) h).2 =
        Prod.fst <$> host.uniform (-e.jitter) e.jitter h₁) :
    let angles := Spread.angles i.count i.vector.x i.vector.y
    (∃ picked, pick angles (host.shuffle (List.range angles.length) h).1 = .ok picked ∧
        picked.Perm angles) ∧
      Reorders host e
        (act host.recorded { i with kind := .fireSpreadShuffled } e (h, []))
        (act host.recorded { i with kind := .fireSpread } e (h₁, [])) := by
  intro angles
  have positions : (host.shuffle (List.range angles.length) h).1.Perm (List.range angles.length) :=
    permutes _ h
  obtain ⟨picked, hpick, permuted⟩ := pick_of_perm positions
  refine ⟨⟨picked, hpick, permuted⟩, ?_⟩
  have length : angles.length = i.count.toNatClampNeg := Spread.angles_length _ _ _
  have volley : volley? host.recorded { i with kind := .fireSpreadShuffled } e (h, []) =
      .ok (some (picked.map (e.plain · i.first)), (host.shuffle (List.range angles.length) h).2,
        [.shuffle (List.range angles.length) (host.shuffle (List.range angles.length) h).1]) := by
    simp only [volley?, Host.recorded]
    rw [show pick (Spread.angles i.count i.vector.x i.vector.y) _ = .ok picked from hpick]
    rfl
  unfold act
  rw [volley]
  refine fire_reorders impartial (permuted.map _) (fun launch => ?_) ?_ rfl rfl
  · exact (impartial.shuffle launch _ h).trans (alike launch)
  · rw [length]
    exact sameDraw

/-- The shuffle takes the first fraction of a list of one, and so leaves it to the jitter as well. -/
theorem shuffled_reorders_jittery :
    let host := Recorder.host orbs true
    let r := Recorder.ofChance (.scripted #[0.5] 0)
    ∃ e' h h₁ calls calls₁,
      act host.recorded (Command.fireSpreadShuffled 3 0.0 90.0 2.0) jittery (r, []) =
        .ok (e', h, calls) ∧
      act host.recorded (Command.fireSpread 3 0.0 90.0 2.0) jittery (r, []) = .ok (e', h₁, calls₁) ∧
      e'.fired = 3 ∧
      (calls.filterMap HostCall.request?).map (·.heading) = [45.0, 90.0, 0.0] ∧
      (calls₁.filterMap HostCall.request?).map (·.heading) = [0.0, 45.0, 90.0] ∧
      (calls.filterMap HostCall.request?).Perm (calls₁.filterMap HostCall.request?) := by
  intro host r
  have alike : ∀ launch, host.accepts launch r = host.accepts launch r := fun _ => rfl
  have reorders : Reorders host jittery
      (act host.recorded (Command.fireSpreadShuffled 3 0.0 90.0 2.0) jittery (r, []))
      (act host.recorded (Command.fireSpread 3 0.0 90.0 2.0) jittery (r, [])) :=
    (shuffled_reorders (Recorder.host_impartial orbs true)
      (Recorder.host_drawsFairly orbs true).shuffle (Command.fireSpread 3 0.0 90.0 2.0) jittery
      alike fun _ => rfl).2
  obtain ⟨e', h, calls, shuffled, fired, headings⟩ : ∃ e' h calls,
      act host.recorded (Command.fireSpreadShuffled 3 0.0 90.0 2.0) jittery (r, []) =
        .ok (e', h, calls) ∧ e'.fired = 3 ∧
      (calls.filterMap HostCall.request?).map (·.heading) = [45.0, 90.0, 0.0] :=
    ⟨_, _, _, rfl, rfl, by decide +kernel⟩
  obtain ⟨e₁', h₁, calls₁, plain, headings₁⟩ : ∃ e₁' h₁ calls₁,
      act host.recorded (Command.fireSpread 3 0.0 90.0 2.0) jittery (r, []) =
        .ok (e₁', h₁, calls₁) ∧
      (calls₁.filterMap HostCall.request?).map (·.heading) = [0.0, 45.0, 90.0] :=
    ⟨_, _, _, rfl, by decide +kernel⟩
  rw [shuffled, plain] at reorders
  cases reorders with
  | fired requests =>
      exact ⟨e', h, h₁, calls, calls₁, shuffled, plain, fired, headings, headings₁, requests⟩

end Shot

end Barrage
