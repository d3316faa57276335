/-
Hosts whose calls are written down.

`Host.recorded` answers like the host it is made of and keeps a record of every call in
the world that it hands on, as `Interpreter.recorded` does for handlers.  So the record of
a script's tick lists what the script has asked of its host, in order, and what it was
answered.
-/
import Barrage.Proofs.Host.Keeps
import Barrage.Proofs.Script.View

namespace Barrage

variable {α η : Type} [Scalar α]

/-- A setting in which there is nothing to look at. -/
def Setting.bare (α : Type) [Scalar α] : Setting α where
  library := .empty
  sprite? _ _ := none
  path? _ := none
  player := none

/-- A host that takes no bullets and forgets what it is told, and that makes a draw of the bounds
alone. -/
def Host.still (setting : Setting α) (draw : α → α → α) : Host α Unit where
  toSetting := setting
  spawnBullet _ h := (none, h)
  setPosition _ _ h := h
  setRotation _ _ h := h
  setVelocity _ _ h := h
  destroy _ h := h
  playSound _ _ h := h
  uniform low high h := .ok (draw low high, h)
  shuffle items h := (items, h)

/-- Something that a script has asked of its host, with the answer if there is one. -/
inductive HostCall (α : Type) [Scalar α] where
  | spawnBullet (launch : Bullet.Launch α) (answer : Option Handle)
  | setPosition (handle : Handle) (position : Vec2 α)
  | setRotation (handle : Handle) (degrees : α)
  | setVelocity (handle : Handle) (velocity : Vec2 α)
  | destroy (handle : Handle)
  | playSound (sound : String) (volume : α)
  | uniform (low high answer : α)
  | shuffle (items answer : List Nat)

/-- The bullet that a call asks for, if it asks for one. -/
def HostCall.request? : HostCall α → Option (Bullet.Launch α)
  | spawnBullet launch _ => some launch
  | _ => none

namespace Host

/-- The same host, which also writes down what it is asked and what it answers. -/
def recorded (host : Host α η) : Host α (η × List (HostCall α)) where
  toSetting := host.toSetting
  spawnBullet launch := fun (h, calls) =>
    let (answer, h) := host.spawnBullet launch h
    (answer, h, calls ++ [.spawnBullet launch answer])
  setPosition handle position := fun (h, calls) =>
    (host.setPosition handle position h, calls ++ [.setPosition handle position])
  setRotation handle degrees := fun (h, calls) =>
    (host.setRotation handle degrees h, calls ++ [.setRotation handle degrees])
  setVelocity handle velocity := fun (h, calls) =>
    (host.setVelocity handle velocity h, calls ++ [.setVelocity handle velocity])
  destroy handle := fun (h, calls) => (host.destroy handle h, calls ++ [.destroy handle])
  playSound sound volume := fun (h, calls) =>
    (host.playSound sound volume h, calls ++ [.playSound sound volume])
  uniform low high := fun (h, calls) => do
    let (x, h) ← host.uniform low high h
    return (x, h, calls ++ [.uniform low high x])
  shuffle items := fun (h, calls) =>
    let (order, h) := host.shuffle items h
    (order, h, calls ++ [.shuffle items order])

variable {host : Host α η} {s s' : η × List (HostCall α)}

/-- A draw without the record of it. -/
theorem recorded_uniform_view (low high : α) (s : η × List (HostCall α)) :
    host.uniform low high s.1 = Prod.map id Prod.fst <$> host.recorded.uniform low high s := by
  simp only [recorded, map_bind]
  exact (bind_pure (host.uniform low high s.1)).symm

theorem recorded_uniform {low high x : α} (h : host.recorded.uniform low high s = .ok (x, s')) :
    s'.2 = s.2 ++ [.uniform low high x] := by
  obtain ⟨⟨y, h₁⟩, -, h⟩ := bind_eq_ok.mp h
  cases h
  rfl

/-- A property that the calls for sounds and for chance have is kept by the record of a host. -/
theorem recorded_keepsAside {Q : HostCall α → Prop}
    (sound : ∀ sound volume, Q (.playSound sound volume))
    (draw : ∀ low high answer, Q (.uniform low high answer))
    (order : ∀ items answer, Q (.shuffle items answer)) :
    host.recorded.KeepsAside fun s => ∀ call ∈ s.2, Q call where
  playSound name volume s hs := List.forall_mem_append.mpr
    ⟨hs, List.forall_mem_singleton.mpr (sound name volume)⟩
  uniform low high _ x _ hs hdraw := by
    rw [recorded_uniform hdraw]
    exact List.forall_mem_append.mpr ⟨hs, List.forall_mem_singleton.mpr (draw low high x)⟩
  shuffle items s hs := List.forall_mem_append.mpr
    ⟨hs, List.forall_mem_singleton.mpr (order items _)⟩

/-- If the calls for bullets have it as well, it is kept by all that a shot asks for. -/
theorem recorded_keepsAsking {L : Bullet.Launch α → Prop} {Q : HostCall α → Prop}
    (keeps : host.recorded.KeepsAside fun s => ∀ call ∈ s.2, Q call)
    (spawn : ∀ launch answer, L launch → Q (.spawnBullet launch answer)) :
    host.recorded.KeepsAsking L fun s => ∀ call ∈ s.2, Q call where
  toKeepsAside := keeps
  spawnBullet launch _ hl hs := List.forall_mem_append.mpr
    ⟨hs, List.forall_mem_singleton.mpr (spawn launch _ hl)⟩

/-- A shuffle is done in place: it neither adds items nor drops any. -/
def ShufflesInPlace (host : Host α η) : Prop :=
  ∀ items h, (host.shuffle items h).1.length = items.length

end Host

/-! ### Recording changes nothing

For each of the three vocabularies the instructions do the same on a recorded host, up
to the record, and then so does a whole tick by `Cursor.update_view`.  Crashes are part
of the equations, so neither a result nor a crash can come from the record.
-/

/-- What is left of a state when the record is taken off. -/
def unrecorded {β : Type} (s : β × η × List (HostCall α)) : β × η :=
  (s.1, s.2.1)

/-- If a tick comes to the same with and without a record, each of the two comes to a result if the
other does. -/
theorem ok_iff_recorded {β γ : Type} {x : Except Crash (Bool × γ × β × η)}
    {y : Except Crash (Bool × γ × β × η × List (HostCall α))} {running : Bool} {c : γ} {b : β} {h : η}
    (same : x = (fun (running, c, b, s) => (running, c, b, s.1)) <$> y) :
    x = .ok (running, c, b, h) ↔ ∃ calls, y = .ok (running, c, b, h, calls) := by
  rw [same, map_eq_ok]
  constructor
  · rintro ⟨⟨_, _, _, _, calls⟩, hy, hview⟩
    cases hview
    exact ⟨calls, hy⟩
  · rintro ⟨calls, hy⟩
    exact ⟨_, hy, rfl⟩

variable {host : Host α η}

namespace Bullet

theorem act_unrecorded (i : Instruction Kind α) (m : Motion α) (s : η × List (HostCall α)) :
    act host i m s.1 = unrecorded <$> act host.recorded i m s := by
  unfold act
  cases i.kind <;> try rfl
  case jitter =>
    dsimp only
    rw [Host.recorded_uniform_view, bind_map_left, map_bind]
    rfl
  case aimAtPlayer =>
    have same : host.recorded.headingToPlayer? m.position = host.headingToPlayer? m.position := rfl
    simp only [same]
    cases host.headingToPlayer? m.position <;> rfl

theorem interpreter_recorded (host : Host α η) :
    (interpreter host.recorded).Shows (interpreter host) unrecorded where
  instant := by
    rintro i ⟨m, s⟩
    simp only [interpreter, unrecorded]
    rw [act_unrecorded, bind_map_left, map_bind]
    rfl
  timed := by
    rintro i phase given ⟨m, s⟩
    cases phase with
    | run frame duration t =>
        simp only [interpreter, unrecorded]
        rw [map_bind]
        rfl
    | finish => rfl

/-- A bullet's tick comes to the same. -/
theorem update_unrecorded (script : Cursor Kind α) (m : Motion α) (s : η × List (HostCall α)) :
    update host script m s.1 =
      (fun (running, script, m, s) => (running, script, m, s.1)) <$>
        update host.recorded script m s := by
  have hscript := Cursor.update_view (interpreter_recorded host) script (m, s)
  unfold update
  split
  · rfl
  · rw [show script.update (interpreter host) (m, s.1) = _ from hscript, bind_map_left, map_bind]
    refine bind_congr fun answered => ?_
    obtain ⟨running, script', m', s'⟩ := answered
    cases running <;> cases hhandle : m'.handle <;> simp only [unrecorded, hhandle] <;> rfl

end Bullet

namespace Enemy

theorem act_unrecorded (i : Instruction Kind α) (b : Body α) (s : η × List (HostCall α)) :
    act host i b s.1 = Prod.map id unrecorded (act host.recorded i b s) := by
  unfold act
  cases i.kind <;> try rfl
  case die =>
    dsimp only [die]
    cases b.handle <;> rfl

theorem chooseNear_unrecorded (radius : α) (span : Int32) (anchor start : Vec2 α)
    (s : η × List (HostCall α)) : chooseNear host radius span anchor start s.1 =
      Prod.map id Prod.fst <$> chooseNear host.recorded radius span anchor start s := by
  simp only [chooseNear, Host.recorded_uniform_view, bind_map_left, map_bind, Prod.map_snd]
  rfl

theorem chooseInBox_unrecorded (half : Vec2 α) (speed : α) (anchor start : Vec2 α)
    (s : η × List (HostCall α)) : chooseInBox host half speed anchor start s.1 =
      Prod.map id Prod.fst <$> chooseInBox host.recorded half speed anchor start s := by
  simp only [chooseInBox, Host.recorded_uniform_view, bind_map_left, map_bind, Prod.map_snd]
  rfl

theorem currentLeg_unrecorded {choose : LegChoice α η}
    {choose' : LegChoice α (η × List (HostCall α))}
    (same : ∀ anchor start s, choose anchor start s.1 = Prod.map id Prod.fst <$> choose' anchor start s)
    (scratch : Option (Scratch α)) (here : Vec2 α) (s : η × List (HostCall α)) :
    currentLeg choose scratch here s.1 =
      Prod.map id Prod.fst <$> currentLeg choose' scratch here s := by
  unfold currentLeg
  split
  · rfl
  · rw [same, bind_map_left, map_bind]
    rfl

theorem walk_unrecorded {choose : LegChoice α η}
    {choose' : LegChoice α (η × List (HostCall α))}
    (same : ∀ anchor start s, choose anchor start s.1 = Prod.map id Prod.fst <$> choose' anchor start s)
    (scratch : Option (Scratch α)) (b : Body α) (s : η × List (HostCall α)) :
    walk choose scratch b s.1 = Prod.map id unrecorded <$> walk choose' scratch b s := by
  unfold walk
  rw [currentLeg_unrecorded same, bind_map_left, map_bind]
  refine bind_congr fun chosen => ?_
  obtain ⟨leg, s₁⟩ := chosen
  simp only [Prod.map, id]
  split
  · rw [same, bind_map_left, map_bind]
    rfl
  · rfl

theorem tick_unrecorded (i : Instruction Kind α) (frame : Int32) (t : α)
    (scratch : Option (Scratch α)) (b : Body α) (s : η × List (HostCall α)) :
    tick host i frame t scratch b s.1 =
      Prod.map id unrecorded <$> tick host.recorded i frame t scratch b s := by
  unfold tick
  cases i.kind <;> try rfl
  case home =>
    have same : host.recorded.headingToPlayer? b.position = host.headingToPlayer? b.position := rfl
    simp only [same]
    cases host.headingToPlayer? b.position <;> dsimp only <;> rw [map_bind] <;> rfl
  case followPath =>
    have same : host.recorded.path? i.extra = host.path? i.extra := rfl
    simp only [same]
    cases host.path? i.extra <;> rfl
  case wander => exact walk_unrecorded (chooseNear_unrecorded _ _) scratch b s
  case patrol => exact walk_unrecorded (chooseInBox_unrecorded _ _) scratch b s

theorem interpreter_recorded (host : Host α η) :
    (interpreter host.recorded).Shows (interpreter host) unrecorded where
  instant := by
    rintro i ⟨b, s⟩
    exact congrArg Except.ok (act_unrecorded i b s)
  timed := by
    rintro i phase given ⟨b, s⟩
    cases phase with
    | run frame duration t =>
        simp only [interpreter, unrecorded]
        rw [tick_unrecorded, bind_map_left, map_bind]
        rfl
    | finish => rfl

/-- An enemy's tick comes to the same. -/
theorem update_unrecorded (script : Cursor Kind α) (b : Body α) (s : η × List (HostCall α)) :
    update host script b s.1 =
      (fun (running, script, b, s) => (running, script, b, s.1)) <$>
        update host.recorded script b s := by
  have hscript := Cursor.update_view (interpreter_recorded host) script (b, s)
  unfold update
  split
  · rfl
  · rw [show script.update (interpreter host) (b, s.1) = _ from hscript, bind_map_left, map_bind]
    refine bind_congr fun answered => ?_
    obtain ⟨running, script', b', s'⟩ := answered
    cases hhandle : b'.handle <;> simp only [unrecorded, hhandle] <;> rfl

end Enemy

namespace Shot

theorem randomAngles_unrecorded (count : Int32) (center arc : α) (s : η × List (HostCall α)) :
    Spread.randomAngles host.uniform count center arc s.1 =
      Prod.map id Prod.fst <$> Spread.randomAngles host.recorded.uniform count center arc s := by
  unfold Spread.randomAngles
  generalize count.toNatClampNeg = n
  induction n generalizing s with
  | zero => rfl
  | succ n ih =>
      unfold Spread.randomAngles.go
      rw [Host.recorded_uniform_view, bind_map_left, map_bind]
      refine bind_congr fun drawn => ?_
      simp only [Prod.map]
      rw [ih, bind_map_left, map_bind]
      rfl

theorem volley?_unrecorded (i : Instruction Kind α) (e : Emitter α) (s : η × List (HostCall α)) :
    volley? host i e s.1 = Prod.map id Prod.fst <$> volley? host.recorded i e s := by
  unfold volley?
  cases i.kind <;> try rfl
  case fireSpreadShuffled =>
    dsimp only
    rw [map_bind]
    rfl
  case fireSpreadRandom =>
    dsimp only
    rw [randomAngles_unrecorded, bind_map_left, map_bind]
    rfl

theorem launch_unrecorded (heading : α) (r : Round α) (e : Emitter α) (s : η × List (HostCall α)) :
    launch host heading r e s.1 = unrecorded (launch host.recorded heading r e s) := by
  unfold launch
  have same : host.recorded.sprite? r.template r.color = host.sprite? r.template r.color := rfl
  rw [same]
  cases host.sprite? r.template r.color <;> rfl

theorem launchAll_cons (host : Host α η) (deviation : α) (r : Round α) (rounds : List (Round α))
    (e : Emitter α) (h : η) :
    launchAll host deviation (r :: rounds) e h =
      launchAll host deviation rounds (launch host (e.baseAngle + r.angle + deviation) r e h).1
        (launch host (e.baseAngle + r.angle + deviation) r e h).2 :=
  rfl

theorem launchAll_unrecorded (deviation : α) (rounds : List (Round α)) (e : Emitter α)
    (s : η × List (HostCall α)) : launchAll host deviation rounds e s.1 =
      unrecorded (launchAll host.recorded deviation rounds e s) := by
  induction rounds generalizing e s with
  | nil => rfl
  | cons r rest ih =>
      rw [launchAll_cons, launchAll_cons, launch_unrecorded]
      exact ih _ _

theorem act_unrecorded (i : Instruction Kind α) (e : Emitter α) (s : η × List (HostCall α)) :
    act host i e s.1 = unrecorded <$> act host.recorded i e s := by
  unfold act
  rw [volley?_unrecorded, bind_map_left, map_bind]
  refine bind_congr fun described => ?_
  obtain ⟨_ | rounds, s₁⟩ := described
  · refine congrArg Except.ok ?_
    unfold adjust
    cases i.kind <;> try rfl
    case aimAtPlayer =>
      dsimp only [Prod.map]
      have same : host.recorded.headingToPlayer? e.muzzle = host.headingToPlayer? e.muzzle := rfl
      rw [same]
      cases host.headingToPlayer? e.muzzle <;> rfl
  · dsimp only [Prod.map, id, fire]
    split
    · exact congrArg Except.ok (launchAll_unrecorded _ _ _ _)
    · rw [Host.recorded_uniform_view, bind_map_left, map_bind]
      exact bind_congr fun drawn => congrArg Except.ok (launchAll_unrecorded _ _ _ _)

theorem interpreter_recorded (host : Host α η) :
    (interpreter host.recorded).Shows (interpreter host) unrecorded where
  instant := by
    rintro i ⟨e, s⟩
    simp only [interpreter, unrecorded]
    rw [act_unrecorded, bind_map_left, map_bind]
    rfl
  timed := by
    rintro i phase given ⟨e, s⟩
    cases phase <;> rfl

/-- A shot's tick comes to the same. -/
theorem update_unrecorded (script : Cursor Kind α) (e : Emitter α) (s : η × List (HostCall α)) :
    update host script e s.1 =
      (fun (running, script, e, s) => (running, script, e, s.1)) <$>
        update host.recorded script e s :=
  Cursor.update_view (interpreter_recorded host) script (e, s)

end Shot

end Barrage
