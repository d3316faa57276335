/-
What a volley asks of the host.

A firing instruction makes its calls in three parts: those that draw its angles, one that
draws by how much the whole volley is off, if the emitter has jitter pending, and one
for each bullet that has a sprite.  `Volley` says for every kind which bullets there are
and what is drawn for them, and `Fires` puts the three parts together with the emitter
that is left behind.  An instruction that does not fire asks for no bullet and draws
nothing, which is `Quiet`.

The calls are read off the record of `Host.recorded`, so every one of them is listed.
-/
import Barrage.Host.Recorder
import Barrage.Proofs.Host.Record

namespace Barrage

/-- The values of a table are those of its entries. -/
theorem values_eq_map_toList {κ β : Type} [Ord κ] (table : Std.TreeMap κ β) :
    table.values = table.toList.map (·.2) := by
  show table.inner.inner.values
    = (Std.DTreeMap.Internal.Impl.Const.toList table.inner.inner).map (·.2)
  rw [Std.DTreeMap.Internal.Impl.values_eq_map_snd,
    Std.DTreeMap.Internal.Impl.Const.toList_eq_toListModel_map, List.map_map]
  rfl

/-- The first item gives one result or none. -/
theorem filterMap_cons_toList {β γ : Type} (f : β → Option γ) (b : β) (items : List β) :
    (b :: items).filterMap f = (f b).toList ++ items.filterMap f := by
  rw [List.filterMap_cons]
  cases f b <;> rfl

variable {α η : Type} [Scalar α]

/-! ### As many angles as were asked for

The lists have the length of the count whatever the numbers are, single bullets and
volleys of none included, where the formulas are not used.
-/

namespace Spread

theorem angles_length (count : Int32) (start arc : α) :
    (angles count start arc).length = count.toNatClampNeg := by
  simp [angles, evenly]

theorem centeredAngles_length (count : Int32) (center arc : α) :
    (centeredAngles count center arc).length = count.toNatClampNeg := by
  unfold centeredAngles
  split
  · rename_i one
    rw [one]
    rfl
  · exact angles_length _ _ _

theorem fanSpeeds_length (count : Int32) (low high : α) :
    (fanSpeeds count low high).length = count.toNatClampNeg := by
  unfold fanSpeeds
  split
  · rename_i none
    rw [passes_of_none none]
    rfl
  · split
    · rename_i one
      rw [one]
      rfl
    · simp [evenly]

variable {host : Host α η} {s s' : η × List (HostCall α)}

/-- Random angles are drawn one by one from the arc around the center. -/
theorem randomAngles_recorded {count : Int32} {center arc : α} {angles : List α}
    (h : randomAngles host.recorded.uniform count center arc s = .ok (angles, s')) :
    ∃ drawn : List α, drawn.length = count.toNatClampNeg ∧ angles = drawn.map (center + ·) ∧
      s'.2 = s.2 ++ drawn.map (.uniform (-(arc / 2.0)) (arc / 2.0)) := by
  unfold randomAngles at h
  generalize count.toNatClampNeg = n at h
  induction n generalizing s angles with
  | zero =>
      cases h
      exact ⟨[], rfl, rfl, (List.append_nil _).symm⟩
  | succ n ih =>
      obtain ⟨⟨u, s₁⟩, hdraw, h⟩ := bind_eq_ok.mp h
      obtain ⟨⟨rest, s₂⟩, hrest, h⟩ := bind_eq_ok.mp h
      cases h
      obtain ⟨drawn, hlength, rfl, hcalls⟩ := ih hrest
      refine ⟨u :: drawn, congrArg (· + 1) hlength, rfl, ?_⟩
      rw [hcalls, Host.recorded_uniform hdraw, List.append_assoc]
      rfl

end Spread

namespace Shot

variable {host : Host α η} {i : Instruction Kind α} {e e' : Emitter α}
  {s s' : η × List (HostCall α)} {rounds : List (Round α)}

/-! ### What is fired, and what is drawn for it

One constructor for each kind that fires.  The angles of a shuffled or random spread are
decided by the host, so they are tied to the calls that draw them; all others follow
from the operands and the slots.
-/

/-- The kinds that fire. -/
def Kind.fires : Kind → Bool
  | .fire | .fireAt | .fireSpeeds | .fireSpread | .fireSpreadCentered | .fireSpreadShuffled
  | .fireSpreadRandom | .fireRing | .fireSlot | .fireAllSlots => true
  | _ => false

/-- How many bullets an instruction fires. -/
def bulletCount (i : Instruction Kind α) (e : Emitter α) : Nat :=
  match i.kind with
  | .fire | .fireAt => 1
  | .fireSlot => if e.slots.contains i.extra then 1 else 0
  | .fireAllSlots => e.slots.size
  | _ => i.count.toNatClampNeg

/-- The bullets that an instruction fires, and the calls that draw their angles. -/
inductive Volley (i : Instruction Kind α) (e : Emitter α) :
    List (HostCall α) → List (Round α) → Prop
  | fire (kind : i.kind = .fire) : Volley i e [] [e.plain 0.0 i.first]
  | fireAt (kind : i.kind = .fireAt) : Volley i e [] [e.plain i.first i.second]
  | speeds (kind : i.kind = .fireSpeeds) :
      Volley i e [] ((Spread.fanSpeeds i.count i.first i.second).map (e.plain 0.0))
  | spread (kind : i.kind = .fireSpread) :
      Volley i e [] ((Spread.angles i.count i.vector.x i.vector.y).map (e.plain · i.first))
  | centered (kind : i.kind = .fireSpreadCentered) :
      Volley i e [] ((Spread.centeredAngles i.count i.vector.x i.vector.y).map (e.plain · i.first))
  | ring (kind : i.kind = .fireRing) :
      Volley i e [] ((Spread.ringAngles i.count 0.0).map (e.plain · i.first))
  /-- The angles of a spread in the order of one shuffle. -/
  | shuffled (kind : i.kind = .fireSpreadShuffled) {order : List Nat} {angles : List α}
      (inPlace : order.length = i.count.toNatClampNeg)
      (ordered : angles.map some = order.map ((Spread.angles i.count i.vector.x i.vector.y)[·]?)) :
      Volley i e [.shuffle (List.range i.count.toNatClampNeg) order]
        (angles.map (e.plain · i.first))
  /-- Every angle is drawn on its own. -/
  | random (kind : i.kind = .fireSpreadRandom) {drawn : List α}
      (enough : drawn.length = i.count.toNatClampNeg) :
      Volley i e (drawn.map (.uniform (-(i.vector.y / 2.0)) (i.vector.y / 2.0)))
        (drawn.map fun u => e.plain (i.vector.x + u) i.first)
  | slot (kind : i.kind = .fireSlot) : Volley i e [] e.slots[i.extra]?.toList
  | allSlots (kind : i.kind = .fireAllSlots) {slots : List (Int32 × Round α)}
      (filled : slots.Perm e.slots.toList) (ascending : (slots.map (·.1)).Pairwise (· < ·)) :
      Volley i e [] (slots.map (·.2))

/-- By how much a volley is off, and the call that draws this; nothing is drawn without jitter. -/
inductive Strays (e : Emitter α) : List (HostCall α) → α → Prop
  | calm (h : (e.jitter == 0.0) = true) : Strays e [] 0.0
  | drawn (h : (e.jitter == 0.0) = false) (x : α) :
      Strays e [.uniform (-e.jitter) e.jitter x] x

/-- The bullet that is asked for, if its template and color have a sprite. -/
def Emitter.request? (setting : Setting α) (e : Emitter α) (deviation : α) (r : Round α) :
    Option (Bullet.Launch α) :=
  (setting.sprite? r.template r.color).map fun sprite =>
    { position := e.muzzle + r.offset
      heading := e.baseAngle + r.angle + deviation
      speed := r.speed
      template := r.template
      color := r.color
      sprite
      angularVelocity := r.angularVelocity
      acceleration := r.acceleration
      script := e.motion.bind setting.library.bullets.cursor? }

/-- An instruction that fires makes these calls and leaves this emitter behind. -/
inductive Fires (setting : Setting α) (i : Instruction Kind α) (e : Emitter α) :
    List (HostCall α) → Emitter α → Prop
  | intro {draws strays : List (HostCall α)} {rounds : List (Round α)} {deviation : α}
      {launches : List (Bullet.Launch α)} {answers : List (Option Handle)}
      (volley : Volley i e draws rounds) (count : rounds.length = bulletCount i e)
      (stray : Strays e strays deviation)
      (asked : launches = rounds.filterMap (e.request? setting deviation))
      (answered : answers.length = launches.length) :
      Fires setting i e (draws ++ strays ++ List.zipWith .spawnBullet launches answers)
        { e with jitter := 0.0, fired := e.fired + answers.countP (·.isSome) }

/-- An instruction that does not fire makes these calls and leaves this emitter behind. -/
structure Quiet (i : Instruction Kind α) (e : Emitter α) (calls : List (HostCall α))
    (e' : Emitter α) : Prop where
  calls : calls = if i.kind = .playSound then [.playSound i.sound i.volume] else []
  fired : e'.fired = e.fired
  jitter : e'.jitter = if i.kind = .randomizeNext then Scalar.abs i.first else e.jitter

/-- Why an instruction may crash: a number cannot be drawn, or a shuffle gives a position that
does not exist. -/
inductive Fails (host : Host α η) (i : Instruction Kind α) (e : Emitter α) : Crash → Prop
  | angle (kind : i.kind = .fireSpreadRandom) {h : η} {crash : Crash}
      (draw : host.uniform (-(i.vector.y / 2.0)) (i.vector.y / 2.0) h = .error crash) :
      Fails host i e crash
  | order (kind : i.kind = .fireSpreadShuffled) {h : η} {k : Nat}
      (mem : k ∈ (host.shuffle (List.range i.count.toNatClampNeg) h).1)
      (stray : i.count.toNatClampNeg ≤ k) : Fails host i e .strayIndex
  | jitter (fires : i.kind.fires = true) (pending : (e.jitter == 0.0) = false) {h : η}
      {crash : Crash} (draw : host.uniform (-e.jitter) e.jitter h = .error crash) :
      Fails host i e crash

/-- What an instruction comes to, with the calls that it makes. -/
inductive Acts (host : Host α η) (i : Instruction Kind α) (e : Emitter α) :
    Except Crash (Signal × Emitter α × η × List (HostCall α)) → Prop
  | fires (kind : i.kind.fires = true) {calls : List (HostCall α)} {e' : Emitter α} {h' : η}
      (does : Fires host.toSetting i e calls e') : Acts host i e (.ok (.proceed, e', h', calls))
  | quiet (kind : i.kind.fires = false) {calls : List (HostCall α)} {e' : Emitter α} {h' : η}
      (does : Quiet i e calls e') : Acts host i e (.ok (.proceed, e', h', calls))
  | crash {crash : Crash} (fails : Fails host i e crash) : Acts host i e (.error crash)

/-! ### The handlers fire what the table says

A shuffle gives positions, and picking by them fails where a position does not exist.
That none is missing is asked of the host, and only for a shuffle in place the number of
bullets is the one asked for.
-/

omit [Scalar α] in
/-- The items picked are those at the positions given. -/
theorem pick_eq_ok {items picked : List α} {order : List Nat} (h : pick items order = .ok picked) :
    picked.map some = order.map (items[·]?) := by
  unfold pick at h
  induction order generalizing picked with
  | nil =>
      cases h
      rfl
  | cons k rest ih =>
      rw [List.mapM_cons] at h
      obtain ⟨item, hitem, h⟩ := bind_eq_ok.mp h
      obtain ⟨others, hothers, h⟩ := bind_eq_ok.mp h
      cases h
      rw [List.map_cons, List.map_cons, ih hothers]
      cases hk : items[k]? with
      | none => simp [hk] at hitem
      | some found =>
          simp only [List.getElem?_toArray, hk, Except.ok.injEq] at hitem
          rw [hitem]

omit [Scalar α] in
/-- A pick fails only at a position that the list does not have. -/
theorem pick_eq_error {items : List α} {order : List Nat} {crash : Crash}
    (h : pick items order = .error crash) :
    crash = .strayIndex ∧ ∃ k ∈ order, items.length ≤ k := by
  unfold pick at h
  induction order with
  | nil => cases h
  | cons k rest ih =>
      rw [List.mapM_cons] at h
      rcases bind_eq_error.mp h with hitem | ⟨item, -, h⟩
      · cases hk : items[k]? with
        | none =>
            simp only [List.getElem?_toArray, hk, Except.error.injEq] at hitem
            exact ⟨hitem.symm, k, List.mem_cons_self, List.getElem?_eq_none_iff.mp hk⟩
        | some found => simp [hk] at hitem
      · rcases bind_eq_error.mp h with hrest | ⟨others, -, h⟩
        · obtain ⟨rfl, stray, hmem, hlength⟩ := ih hrest
          exact ⟨rfl, stray, List.mem_cons_of_mem k hmem, hlength⟩
        · cases h

theorem volley_allSlots (kind : i.kind = .fireAllSlots) : Volley i e [] e.slots.values := by
  rw [values_eq_map_toList]
  refine .allSlots kind (List.Perm.refl _) ?_
  rw [Std.TreeMap.map_fst_toList_eq_keys]
  exact Std.TreeMap.ordered_keys.imp Std.compare_eq_lt.mp

theorem volley?_recorded (inPlace : host.ShufflesInPlace)
    (h : volley? host.recorded i e s = .ok (some rounds, s')) :
    ∃ draws, s'.2 = s.2 ++ draws ∧ Volley i e draws rounds := by
  unfold volley? at h
  cases kind : i.kind <;> simp only [kind] at h
  case fireSpreadShuffled =>
    obtain ⟨angles, hpick, h⟩ := bind_eq_ok.mp h
    cases h
    have hlength := inPlace (List.range i.count.toNatClampNeg) s.1
    rw [List.length_range] at hlength
    have hordered := pick_eq_ok hpick
    rw [Spread.angles_length] at hordered ⊢
    exact ⟨_, rfl, .shuffled kind hlength hordered⟩
  case fireSpreadRandom =>
    obtain ⟨⟨angles, s₁⟩, hangles, h⟩ := bind_eq_ok.mp h
    cases h
    obtain ⟨drawn, hlength, rfl, hcalls⟩ := Spread.randomAngles_recorded hangles
    rw [List.map_map]
    exact ⟨_, hcalls, .random kind hlength⟩
  case fire => cases h; exact ⟨[], (List.append_nil _).symm, .fire kind⟩
  case fireAt => cases h; exact ⟨[], (List.append_nil _).symm, .fireAt kind⟩
  case fireSpeeds => cases h; exact ⟨[], (List.append_nil _).symm, .speeds kind⟩
  case fireSpread => cases h; exact ⟨[], (List.append_nil _).symm, .spread kind⟩
  case fireSpreadCentered => cases h; exact ⟨[], (List.append_nil _).symm, .centered kind⟩
  case fireRing => cases h; exact ⟨[], (List.append_nil _).symm, .ring kind⟩
  case fireSlot => cases h; exact ⟨[], (List.append_nil _).symm, .slot kind⟩
  case fireAllSlots => cases h; exact ⟨[], (List.append_nil _).symm, volley_allSlots kind⟩
  all_goals cases h

theorem Volley.length {draws : List (HostCall α)} (h : Volley i e draws rounds) :
    rounds.length = bulletCount i e := by
  unfold bulletCount
  cases h with
  | fire kind | fireAt kind => simp [kind]
  | speeds kind => simp [kind, Spread.fanSpeeds_length]
  | spread kind => simp [kind, Spread.angles_length]
  | centered kind => simp [kind, Spread.centeredAngles_length]
  | ring kind => simp [kind, Spread.ringAngles, Spread.angles_length]
  | shuffled kind inPlace ordered =>
      have hlength := congrArg List.length ordered
      rw [List.length_map, List.length_map, inPlace] at hlength
      simp [kind, hlength]
  | random kind enough => simp [kind, enough]
  | slot kind =>
      simp only [kind]
      rw [Std.TreeMap.contains_eq_isSome_getElem?]
      cases e.slots[i.extra]? <;> rfl
  | allSlots kind filled _ =>
      simp only [kind]
      rw [List.length_map, filled.length_eq, Std.TreeMap.length_toList]

theorem volley?_fires {h h' : η} (hsome : volley? host i e h = .ok (some rounds, h')) :
    i.kind.fires = true := by
  unfold volley? at hsome
  cases kind : i.kind <;> simp only [kind] at hsome <;> first | rfl | cases hsome

/-- What does not fire has no volley, and nothing is asked of the host for finding that out. -/
theorem volley?_none {h h' : η} (hnone : volley? host i e h = .ok (none, h')) :
    i.kind.fires = false ∧ h' = h := by
  unfold volley? at hnone
  cases kind : i.kind <;> simp only [kind] at hnone
  case fireSpreadShuffled =>
    obtain ⟨angles, -, hnone⟩ := bind_eq_ok.mp hnone
    cases hnone
  case fireSpreadRandom =>
    obtain ⟨drawn, -, hnone⟩ := bind_eq_ok.mp hnone
    cases hnone
  all_goals cases hnone
  all_goals exact ⟨rfl, rfl⟩

/-! ### Bullets are asked for after the draw

The bullets of a volley are launched one after the other, each from the emitter that the
one before has left.  Only the count of the emitter differs between them, and no launch
looks at it, so the requests are those of the emitter at the start.
-/

/-- If the calls so far are none for bullets, the bullets asked for are those of the volley. -/
theorem requests_zipWith {calls : List (HostCall α)} {launches : List (Bullet.Launch α)}
    {answers : List (Option Handle)} (quiet : calls.filterMap HostCall.request? = [])
    (answered : answers.length = launches.length) :
    (calls ++ List.zipWith HostCall.spawnBullet launches answers).filterMap HostCall.request? =
      launches := by
  rw [List.filterMap_append, quiet, List.nil_append]
  induction launches generalizing answers with
  | nil => rfl
  | cons launch rest ih =>
      obtain _ | ⟨answer, others⟩ := answers
      · cases answered
      · have asked : HostCall.request? (.spawnBullet launch answer) = some launch := rfl
        rw [List.zipWith_cons_cons, List.filterMap_cons_some asked, ih (Nat.succ.inj answered)]

omit [Scalar α] in
theorem counted_answer (answer : Option Handle) (e : Emitter α) :
    (if answer.isSome then { e with fired := e.fired + 1 } else e) =
      { e with fired := e.fired + [answer].countP (·.isSome) } := by
  cases answer <;> rfl

/-- One bullet is asked for, if it has a sprite, and counted, if it is accepted. -/
theorem launch_recorded (deviation : α) (r : Round α) (e : Emitter α) (s : η × List (HostCall α)) :
    ∃ answers : List (Option Handle),
      answers.length = (e.request? host.toSetting deviation r).toList.length ∧
      (launch host.recorded (e.baseAngle + r.angle + deviation) r e s).2.2 = s.2 ++
        List.zipWith .spawnBullet (e.request? host.toSetting deviation r).toList answers ∧
      (launch host.recorded (e.baseAngle + r.angle + deviation) r e s).1 =
        { e with fired := e.fired + answers.countP (·.isSome) } := by
  unfold launch Emitter.request?
  cases hsprite : host.sprite? r.template r.color with
  | none =>
      have : host.recorded.sprite? r.template r.color = none := hsprite
      simp only [this]
      exact ⟨[], rfl, (List.append_nil _).symm, rfl⟩
  | some sprite =>
      have : host.recorded.sprite? r.template r.color = some sprite := hsprite
      simp only [this]
      exact ⟨[_], rfl, rfl, counted_answer _ e⟩

theorem launchAll_recorded (deviation : α) (rounds : List (Round α)) (e : Emitter α)
    (s : η × List (HostCall α)) :
    ∃ answers : List (Option Handle),
      answers.length = (rounds.filterMap (e.request? host.toSetting deviation)).length ∧
      (launchAll host.recorded deviation rounds e s).2.2 = s.2 ++ List.zipWith .spawnBullet
        (rounds.filterMap (e.request? host.toSetting deviation)) answers ∧
      (launchAll host.recorded deviation rounds e s).1 =
        { e with fired := e.fired + answers.countP (·.isSome) } := by
  induction rounds generalizing e s with
  | nil => exact ⟨[], rfl, (List.append_nil _).symm, rfl⟩
  | cons r rest ih =>
      obtain ⟨first, hfirst, hcalls, hemitter⟩ := @launch_recorded _ _ _ host deviation r e s
      obtain ⟨others, hothers, hcalls', hemitter'⟩ := ih
        (launch host.recorded (e.baseAngle + r.angle + deviation) r e s).1
        (launch host.recorded (e.baseAngle + r.angle + deviation) r e s).2
      rw [launchAll_cons]
      rw [hemitter] at hothers hcalls' hemitter' ⊢
      refine ⟨first ++ others, ?_, ?_, ?_⟩
      · rw [List.length_append, filterMap_cons_toList, List.length_append, hfirst]
        exact congrArg _ hothers
      · rw [hcalls', hcalls, filterMap_cons_toList, List.zipWith_append hfirst.symm,
          List.append_assoc]
        rfl
      · rw [hemitter', List.countP_append, Nat.add_assoc]

/-- A volley is asked for after the one draw that it needs, if it needs one. -/
theorem fire_recorded (hfire : fire host.recorded rounds e s = .ok (e', s')) :
    ∃ strays deviation answers, Strays e strays deviation ∧
      answers.length = (rounds.filterMap (e.request? host.toSetting deviation)).length ∧
      s'.2 = s.2 ++ (strays ++ List.zipWith .spawnBullet
        (rounds.filterMap (e.request? host.toSetting deviation)) answers) ∧
      e' = { e with jitter := 0.0, fired := e.fired + answers.countP (·.isSome) } := by
  have asks : ∀ deviation s₁,
      launchAll host.recorded deviation rounds { e with jitter := 0.0 } s₁ = (e', s') →
      ∃ answers : List (Option Handle),
        answers.length = (rounds.filterMap (e.request? host.toSetting deviation)).length ∧
        s'.2 = s₁.2 ++ List.zipWith .spawnBullet
          (rounds.filterMap (e.request? host.toSetting deviation)) answers ∧
        e' = { e with jitter := 0.0, fired := e.fired + answers.countP (·.isSome) } := by
    intro deviation s₁ hall
    obtain ⟨answers, hlength, hcalls, hemitter⟩ :=
      @launchAll_recorded _ _ _ host deviation rounds { e with jitter := 0.0 } s₁
    rw [hall] at hcalls hemitter
    exact ⟨answers, hlength, hcalls, hemitter⟩
  unfold fire at hfire
  dsimp only at hfire
  by_cases calm : (e.jitter == 0.0) = true
  · rw [if_pos calm] at hfire
    obtain ⟨answers, hlength, hcalls, hemitter⟩ := asks _ _ (Except.ok.inj hfire)
    exact ⟨[], 0.0, answers, .calm calm, hlength, hcalls, hemitter⟩
  · rw [if_neg calm] at hfire
    obtain ⟨⟨deviation, s₁⟩, hdraw, hfire⟩ := bind_eq_ok.mp hfire
    obtain ⟨answers, hlength, hcalls, hemitter⟩ := asks _ _ (Except.ok.inj hfire)
    refine ⟨_, deviation, answers, .drawn (by simpa using calm) deviation, hlength, ?_, hemitter⟩
    rw [hcalls, Host.recorded_uniform hdraw, List.append_assoc]

/-! ### Instructions that do not fire ask for no bullet -/

/-- What does not fire plays a sound at most. -/
theorem adjust_recorded (i : Instruction Kind α) (e : Emitter α) (s : η × List (HostCall α)) :
    ∃ calls, (adjust host.recorded i e s).2.2 = s.2 ++ calls ∧
      Quiet i e calls (adjust host.recorded i e s).1 := by
  unfold adjust
  cases hkind : i.kind <;> dsimp only
  case playSound => exact ⟨[.playSound i.sound i.volume], rfl, by simp [hkind], rfl,
    by simp [hkind]⟩
  case aimAtPlayer =>
    cases host.recorded.headingToPlayer? e.muzzle <;>
      exact ⟨[], (List.append_nil _).symm, by simp [hkind], rfl, by simp [hkind]⟩
  all_goals
    exact ⟨[], (List.append_nil _).symm, by simp [hkind], rfl, by simp [hkind, Emitter.modifySlot]⟩

/-! ### An instruction makes these calls, or crashes for one of these reasons -/

theorem act_recorded (inPlace : host.ShufflesInPlace)
    (hact : act host.recorded i e s = .ok (e', s')) :
    ∃ calls, s'.2 = s.2 ++ calls ∧
      (i.kind.fires = true ∧ Fires host.toSetting i e calls e' ∨
        i.kind.fires = false ∧ Quiet i e calls e') := by
  obtain ⟨⟨described, s₁⟩, hvolley, hrest⟩ := bind_eq_ok.mp hact
  cases described with
  | none =>
      obtain ⟨kind, rfl⟩ := volley?_none hvolley
      obtain ⟨calls, hcalls, quiet⟩ := @adjust_recorded _ _ _ host i e s₁
      rw [Except.ok.inj hrest] at hcalls quiet
      exact ⟨calls, hcalls, .inr ⟨kind, quiet⟩⟩
  | some rounds =>
      obtain ⟨draws, hdraws, volley⟩ := volley?_recorded inPlace hvolley
      obtain ⟨strays, deviation, answers, stray, hlength, hcalls, rfl⟩ := fire_recorded hrest
      refine ⟨_, ?_, .inl ⟨volley?_fires hvolley, .intro volley volley.length stray rfl hlength⟩⟩
      rw [hcalls, hdraws, List.append_assoc, List.append_assoc]

theorem randomAngles_eq_error {count : Int32} {center arc : α} {h : η} {crash : Crash}
    (herror : Spread.randomAngles host.uniform count center arc h = .error crash) :
    ∃ h', host.uniform (-(arc / 2.0)) (arc / 2.0) h' = .error crash := by
  unfold Spread.randomAngles at herror
  generalize count.toNatClampNeg = n at herror
  induction n generalizing h with
  | zero => cases herror
  | succ n ih =>
      rcases bind_eq_error.mp herror with hdraw | ⟨⟨u, h₁⟩, -, herror⟩
      · exact ⟨h, hdraw⟩
      · rcases bind_eq_error.mp herror with hrest | ⟨rest, -, herror⟩
        · exact ih hrest
        · cases herror

theorem volley?_eq_error {h : η} {crash : Crash} (herror : volley? host i e h = .error crash) :
    Fails host i e crash := by
  unfold volley? at herror
  cases kind : i.kind <;> simp only [kind] at herror
  case fireSpreadShuffled =>
    rcases bind_eq_error.mp herror with hpick | ⟨angles, -, herror⟩
    · obtain ⟨rfl, k, hmem, hstray⟩ := pick_eq_error hpick
      rw [Spread.angles_length] at hmem hstray
      exact .order kind hmem hstray
    · cases herror
  case fireSpreadRandom =>
    rcases bind_eq_error.mp herror with hangles | ⟨drawn, -, herror⟩
    · obtain ⟨h', hdraw⟩ := randomAngles_eq_error hangles
      exact .angle kind hdraw
    · cases herror
  all_goals cases herror

theorem act_eq_error {h : η} {crash : Crash} (herror : act host i e h = .error crash) :
    Fails host i e crash := by
  rcases bind_eq_error.mp herror with hvolley | ⟨⟨described, h₁⟩, hvolley, herror⟩
  · exact volley?_eq_error hvolley
  · cases described with
    | none => cases herror
    | some rounds =>
        dsimp only [fire] at herror
        by_cases calm : (e.jitter == 0.0) = true
        · rw [if_pos calm] at herror
          cases herror
        · rw [if_neg calm] at herror
          rcases bind_eq_error.mp herror with hdraw | ⟨drawn, -, herror⟩
          · exact .jitter (volley?_fires hvolley) (by simpa using calm) hdraw
          · cases herror

/-! ### Shuffling swaps items and nothing else

The one thing that is needed of a shuffle here is that it is one.  It is a sequence of
swaps, whichever numbers are drawn for them, so each of its steps is a permutation.
-/

theorem shuffleUpTo_perm {β : Type} (n : Nat) (items : Array β) (g : Random.Generator) :
    (Random.Generator.shuffleUpTo n items g).1.Perm items := by
  induction n generalizing items g with
  | zero => exact .rfl
  | succ n ih =>
      unfold Random.Generator.shuffleUpTo
      refine (ih _ _).trans ?_
      rw [Array.swapIfInBounds_def]
      split
      · split
        · exact Array.swap_perm _ _
        · exact .rfl
      · exact .rfl

/-- A shuffle changes nothing but the order. -/
theorem shuffle_perm {β : Type} (items : List β) (g : Random.Generator) :
    (g.shuffle items).1.Perm items :=
  (shuffleUpTo_perm _ items.toArray g).toList

theorem shuffle_length {β : Type} (items : List β) (g : Random.Generator) :
    (g.shuffle items).1.length = items.length :=
  (shuffle_perm items g).length_eq

/-- A recorder shuffles in place, whatever its chance comes from. -/
theorem recorder_shufflesInPlace (setting : Setting Float32) (silent : Bool) :
    (Recorder.host setting silent).ShufflesInPlace := by
  intro items r
  show (r.chance.shuffle items).1.length = items.length
  cases r.chance with
  | seeded g => exact shuffle_length items g
  | scripted fractions taken =>
      show (items.drop _ ++ items.take _).length = _
      rw [List.length_append, List.length_drop, List.length_take]
      omega

/--
**What an instruction asks of the host.**  An instruction that fires makes the calls that
draw its angles, then one that draws by how much the volley is off, if jitter is pending,
and then asks for each bullet in order that has a sprite; afterwards no jitter is pending,
the bullets that were accepted have been counted, and nothing else of the emitter has
changed.  One that does not fire asks for no bullet and draws nothing.  With the record
taken off, this is what the instruction does for the host itself.
-/
theorem instant_calls (inPlace : host.ShufflesInPlace) (i : Instruction Kind α) (e : Emitter α)
    (h : η) :
    (interpreter host).instant i (e, h) =
        Prod.map id unrecorded <$> (interpreter host.recorded).instant i (e, h, []) ∧
      Acts host i e ((interpreter host.recorded).instant i (e, h, [])) := by
  refine ⟨(interpreter_recorded host).instant i (e, h, []), ?_⟩
  cases hact : act host.recorded i e (h, []) with
  | error crash =>
      have herror : act host i e h = .error crash := by
        rw [show act host i e h = _ from act_unrecorded i e (h, []), hact]
        rfl
      have hcall : (interpreter host.recorded).instant i (e, h, []) = .error crash := by
        simp only [interpreter, hact]
        rfl
      rw [hcall]
      exact .crash (act_eq_error herror)
  | ok left =>
      obtain ⟨e', h', calls⟩ := left
      have hcall : (interpreter host.recorded).instant i (e, h, []) =
          .ok (.proceed, e', h', calls) := by
        simp only [interpreter, hact]
        rfl
      rw [hcall]
      obtain ⟨made, rfl, ⟨kind, does⟩ | ⟨kind, does⟩⟩ := act_recorded inPlace hact
      · exact .fires kind does
      · exact .quiet kind does

/-- An emitter with some jitter pending, and a host that has a sprite for every bullet. -/
def jittery : Emitter Float32 :=
  { Emitter.ofOrigin .zero with jitter := 4.0 }

def orbs : Setting Float32 where
  library := .empty
  sprite? _ _ := some ⟨"orb", 4.0⟩
  path? _ := none
  player := none

theorem Acts.fires_of {host : Host α η} {signal : Signal} {h' : η} {calls : List (HostCall α)}
    (acts : Acts host i e (.ok (signal, e', h', calls))) (kind : i.kind.fires = true) :
    Fires host.toSetting i e calls e' := by
  cases acts with
  | fires _ does => exact does
  | quiet still _ => simp [kind] at still

theorem instant_calls_jittery :
    (Recorder.host orbs true).ShufflesInPlace ∧ ∃ e' h' calls,
      (interpreter (Recorder.host orbs true).recorded).instant
          (Command.fireSpreadShuffled 3 0.0 90.0 2.0)
          (jittery, .ofChance (.scripted #[0.5] 0), []) = .ok (.proceed, e', h', calls) ∧
        calls.length = 5 ∧ calls.head? = some (.shuffle [0, 1, 2] [1, 2, 0]) ∧ e'.fired = 3 ∧
        Fires orbs (Command.fireSpreadShuffled 3 0.0 90.0 2.0) jittery calls e' := by
  have inPlace : (Recorder.host orbs true).ShufflesInPlace := recorder_shufflesInPlace orbs true
  have acts := (instant_calls inPlace (Command.fireSpreadShuffled 3 0.0 90.0 2.0) jittery
    (.ofChance (.scripted #[0.5] 0))).2
  refine ⟨inPlace, _, _, _, rfl, ?_, ?_, ?_, acts.fires_of rfl⟩ <;> rfl

end Shot

end Barrage
