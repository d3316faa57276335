/-
The slots of an emitter: how they are configured, and how they are fired all at once.

Six kinds of instructions write to a slot, each to some of its fields, and one kind drops
all slots.  `Field.written?` is the table of what they write.  A slot is there just if it
has been written to since the slots were last dropped, and a field of it is what has last
been written to it since then.  A field that has not been written is zero, or the
appearance of the emitter at the moment in which the slot came to be: what is set on the
emitter later does not reach back into a slot.

An instruction that fires leaves every slot alone, and the one that fires all of them
does what firing them one by one does.
-/
import Mathlib.Data.List.DropRight
import Mathlib.Data.List.Sort
import Barrage.Proofs.Shot.Volley
import Barrage.Proofs.Single.Whole

namespace Barrage.Shot

/-! ### Writing to a slot -/

/-- The kinds that write to a slot. -/
def Kind.writesSlot : Kind → Bool
  | .registerBullet | .setSlotBulletType | .setSlotSpeed | .setSlotSpin | .setSlotAcceleration
  | .setSlotOffset => true
  | _ => false

variable {α η : Type} {i : Instruction Kind α} {is : List (Instruction Kind α)} {s : Int32}

/-- The instruction writes to slot `s`. -/
def WritesTo (s : Int32) (i : Instruction Kind α) : Prop :=
  i.kind.writesSlot = true ∧ i.extra = s

instance (s : Int32) (i : Instruction Kind α) : Decidable (WritesTo s i) :=
  inferInstanceAs (Decidable (_ ∧ _))

theorem WritesTo.not_clear (writes : WritesTo s i) : i.kind ≠ .clearSlots := by
  intro clear
  have slot := writes.1
  rw [clear] at slot
  cases slot

theorem WritesTo.not_fires (writes : WritesTo s i) : i.kind.fires = false := by
  have slot := writes.1
  cases hkind : i.kind <;> rw [hkind] at slot <;> first | rfl | cases slot

/-- The instructions that have written to slot `s` since the slots were last dropped. -/
def writesSince (s : Int32) (is : List (Instruction Kind α)) : List (Instruction Kind α) :=
  (is.rtakeWhile fun i => i.kind ≠ .clearSlots).filter fun i => WritesTo s i

theorem writesSince_clear (kind : i.kind = .clearSlots) : writesSince s (is ++ [i]) = [] := by
  simp [writesSince, kind]

theorem writesSince_write (writes : WritesTo s i) :
    writesSince s (is ++ [i]) = writesSince s is ++ [i] := by
  simp [writesSince, writes, writes.not_clear]

theorem writesSince_other (kind : i.kind ≠ .clearSlots) (other : ¬ WritesTo s i) :
    writesSince s (is ++ [i]) = writesSince s is := by
  simp [writesSince, kind, other]

variable [Scalar α]

/-! ### Instructions in a row -/

/-- Runs some instant instructions one after the other. -/
def actAll (host : Host α η) (is : List (Instruction Kind α)) (e : Emitter α) (h : η) :
    Except Crash (Emitter α × η) :=
  is.foldlM (fun (e, h) i => act host i e h) (e, h)

variable {host : Host α η} {e e' : Emitter α} {h h' : η} {rounds : List (Round α)}

theorem actAll_cons : actAll host (i :: is) e h = (do
    let (e, h) ← act host i e h
    actAll host is e h) := by
  unfold actAll
  rw [List.foldlM_cons]

theorem actAll_snoc : actAll host (is ++ [i]) e h = (do
    let (e, h) ← actAll host is e h
    act host i e h) := by
  unfold actAll
  rw [List.foldlM_append]
  simp only [List.foldlM_cons, List.foldlM_nil, bind_pure]

/-! ### The fields of a slot, as a table

Six kinds write and seven fields are written, and a kind may write several of them.  As
a function of the field and the instruction this is one table, and the claim about all
fields is one statement about it.
-/

/-- The fields of a slot. -/
inductive Field where
  | angle
  | speed
  | template
  | color
  | offset
  | angularVelocity
  | acceleration

namespace Field

/-- What a field holds. -/
def Value (α : Type) : Field → Type
  | template | color => Int32
  | offset => Vec2 α
  | angle | speed | angularVelocity | acceleration => α

/-- The field of the bullet that is kept in a slot. -/
def of : (f : Field) → Round α → f.Value α
  | angle, r => r.angle
  | speed, r => r.speed
  | template, r => r.template
  | color, r => r.color
  | offset, r => r.offset
  | angularVelocity, r => r.angularVelocity
  | acceleration, r => r.acceleration

/-- The field of a slot that comes to be while the emitter is as given. -/
def initial : (f : Field) → Emitter α → f.Value α
  | template, e => e.template
  | color, e => e.color
  | offset, _ => (Vec2.zero : Vec2 α)
  | angle, _ | speed, _ | angularVelocity, _ | acceleration, _ => (0.0 : α)

/-- What an instruction writes to the field of its slot, if it writes to it. -/
def written? (f : Field) (i : Instruction Kind α) : Option (f.Value α) :=
  match i.kind, f with
  | .registerBullet, angle => some i.first
  | .registerBullet, speed => some i.second
  | .registerBullet, offset => some i.vector
  | .setSlotBulletType, template => some i.count
  | .setSlotBulletType, color => some (Scalar.trunc i.first)
  | .setSlotSpeed, speed => some i.first
  | .setSlotSpin, angularVelocity => some i.first
  | .setSlotAcceleration, acceleration => some i.first
  | .setSlotOffset, offset => some i.vector
  | _, _ => none

/-- What some instructions have last written to the field, if they have written to it. -/
def last? (f : Field) (writes : List (Instruction Kind α)) : Option (f.Value α) :=
  writes.reverse.findSome? f.written?

theorem last?_snoc (f : Field) (writes : List (Instruction Kind α)) (i : Instruction Kind α) :
    f.last? (writes ++ [i]) = (f.written? i).or (f.last? writes) := by
  unfold last?
  rw [List.reverse_append, List.reverse_singleton, List.singleton_append, List.findSome?_cons]
  cases f.written? i <;> rfl

theorem last?_single (f : Field) (i : Instruction Kind α) : f.last? [i] = f.written? i := by
  unfold last?
  rw [List.reverse_singleton, List.findSome?_singleton]

end Field

/-! ### An instruction drops, writes or leaves a slot

The step lemma.  Whichever instruction it is, there are these three cases for a given
slot, and with a write it matters whether the slot was there before.
-/

/-- Asking for a bullet changes nothing of the emitter but the count. -/
theorem launch_counts (host : Host α η) (heading : α) (r : Round α) (e : Emitter α) (h : η) :
    ∃ fired, (launch host heading r e h).1 = { e with fired } := by
  unfold launch
  cases host.sprite? r.template r.color with
  | none => exact ⟨e.fired, rfl⟩
  | some sprite =>
      dsimp only
      split
      · exact ⟨e.fired + 1, rfl⟩
      · exact ⟨e.fired, rfl⟩

theorem launchAll_counts (host : Host α η) (deviation : α) (rounds : List (Round α))
    (e : Emitter α) (h : η) : ∃ fired, (launchAll host deviation rounds e h).1 = { e with fired } := by
  induction rounds generalizing e h with
  | nil => exact ⟨e.fired, rfl⟩
  | cons r rest ih =>
      obtain ⟨fired, hfirst⟩ := launch_counts host (e.baseAngle + r.angle + deviation) r e h
      obtain ⟨fired', hrest⟩ := ih (launch host (e.baseAngle + r.angle + deviation) r e h).1
        (launch host (e.baseAngle + r.angle + deviation) r e h).2
      refine ⟨fired', ?_⟩
      rw [launchAll_cons, hrest, hfirst]

theorem fire_slots (hfire : fire host rounds e h = .ok (e', h')) : e'.slots = e.slots := by
  have fired : ∀ {deviation h₁},
      launchAll host deviation rounds { e with jitter := 0.0 } h₁ = (e', h') →
        e'.slots = e.slots := by
    intro deviation h₁ hall
    obtain ⟨fired, hcount⟩ := launchAll_counts host deviation rounds { e with jitter := 0.0 } h₁
    have same := congrArg Emitter.slots hcount
    rwa [hall] at same
  unfold fire at hfire
  by_cases calm : (e.jitter == 0.0) = true
  · rw [if_pos calm] at hfire
    exact fired (Except.ok.inj hfire)
  · rw [if_neg calm] at hfire
    obtain ⟨⟨deviation, h₁⟩, -, hfire⟩ := bind_eq_ok.mp hfire
    exact fired (Except.ok.inj hfire)

/-- What becomes of slot `s`, with one case for each thing that an instruction can do to it. -/
inductive Slotted (i : Instruction Kind α) (e : Emitter α) (s : Int32) : Option (Round α) → Prop
  | dropped (kind : i.kind = .clearSlots) : Slotted i e s none
  | written (writes : WritesTo s i) {r : Round α}
      (fields : ∀ f : Field,
        f.of r = (f.written? i).getD (f.of (e.slots[s]?.getD (e.plain 0.0 0.0)))) :
      Slotted i e s (some r)
  | left (kind : i.kind ≠ .clearSlots) (other : ¬ WritesTo s i) : Slotted i e s e.slots[s]?

theorem slotted_of_modify {change : Round α → Round α} (kind : i.kind.writesSlot = true)
    (fields : ∀ (f : Field) r, f.of (change r) = (f.written? i).getD (f.of r)) :
    Slotted i e s (e.modifySlot i.extra change).slots[s]? := by
  unfold Emitter.modifySlot
  rw [Std.TreeMap.getElem?_insert]
  by_cases here : i.extra = s
  · subst here
    rw [if_pos Std.ReflCmp.compare_self]
    exact .written ⟨kind, rfl⟩ fun f => fields f _
  · rw [if_neg (mt Std.LawfulEqCmp.eq_of_compare here)]
    have writes : WritesTo i.extra i := ⟨kind, rfl⟩
    exact .left writes.not_clear fun writes => here writes.2

theorem adjust_slotted (host : Host α η) (i : Instruction Kind α) (e : Emitter α) (h : η)
    (s : Int32) : Slotted i e s (adjust host i e h).1.slots[s]? := by
  have same : ∀ {kind}, i.kind = kind → kind ≠ .clearSlots → kind.writesSlot = false →
      Slotted i e s e.slots[s]? := by
    rintro _ rfl kind aside
    exact .left kind fun writes => by simpa [aside] using writes.1
  unfold adjust
  cases hkind : i.kind <;> dsimp only
  case registerBullet | setSlotBulletType | setSlotSpeed | setSlotSpin | setSlotAcceleration |
      setSlotOffset =>
    apply slotted_of_modify (by rw [hkind]; rfl)
    intro f r
    cases f <;> simp only [Field.written?, hkind] <;> rfl
  case clearSlots =>
    rw [Std.TreeMap.getElem?_emptyc]
    exact .dropped hkind
  case aimAtPlayer =>
    cases host.headingToPlayer? e.muzzle <;> exact same hkind (by decide) rfl
  all_goals exact same hkind (by decide) rfl

theorem act_slots_of_fires (kind : i.kind.fires = true) (hact : act host i e h = .ok (e', h')) :
    e'.slots = e.slots := by
  obtain ⟨⟨described, h₁⟩, hvolley, hact⟩ := bind_eq_ok.mp hact
  cases described with
  | some rounds => exact fire_slots hact
  | none =>
      have still := (volley?_none hvolley).1
      simp [kind] at still

theorem act_slotted (hact : act host i e h = .ok (e', h')) (s : Int32) :
    Slotted i e s e'.slots[s]? := by
  by_cases fires : i.kind.fires = true
  · rw [act_slots_of_fires fires hact]
    refine .left ?_ fun writes => ?_
    · intro clear
      rw [clear] at fires
      cases fires
    · rw [writes.not_fires] at fires
      cases fires
  · obtain ⟨⟨described, h₁⟩, hvolley, hact⟩ := bind_eq_ok.mp hact
    cases described with
    | some rounds => exact absurd (volley?_fires hvolley) fires
    | none =>
        have slotted := adjust_slotted host i e h₁ s
        rwa [Except.ok.inj hact] at slotted

/-! ### The last write since the slots were dropped counts

By induction on the instructions, the last one at the end.  What an unwritten field is
depends on the emitter at the first write, so that emitter is part of what is carried
along.
-/

theorem Field.of_plain (f : Field) (e : Emitter α) : f.of (e.plain 0.0 0.0) = f.initial e := by
  cases f <;> rfl

/-- Slot `s` after some instructions.  If it is there, `first` was the first to write to it since
the slots were last dropped, and `e₁` is the emitter of that moment. -/
inductive Configured (host : Host α η) (e : Emitter α) (h : η) (s : Int32)
    (is : List (Instruction Kind α)) : Option (Round α) → Prop
  | absent (unwritten : writesSince s is = []) : Configured host e h s is none
  | present {before after writes : List (Instruction Kind α)} {first : Instruction Kind α}
      {e₁ : Emitter α} {h₁ : η} {r : Round α} (split : is = before ++ first :: after)
      (unwritten : writesSince s before = []) (kept : ∀ i ∈ after, i.kind ≠ .clearSlots)
      (since : writesSince s is = first :: writes) (ran : actAll host before e h = .ok (e₁, h₁))
      (fields : ∀ f : Field, f.of r = (f.last? (first :: writes)).getD (f.initial e₁)) :
      Configured host e h s is (some r)

theorem Configured.contains {r : Option (Round α)} (configured : Configured host e h s is r) :
    r.isSome = true ↔ writesSince s is ≠ [] := by
  cases configured with
  | absent unwritten => simp [unwritten]
  | present _ _ _ since _ _ => simp [since]

theorem Configured.slotted {e₁ : Emitter α} {h₁ : η} {r : Option (Round α)}
    (configured : Configured host e h s is e₁.slots[s]?) (ran : actAll host is e h = .ok (e₁, h₁))
    (slotted : Slotted i e₁ s r) : Configured host e h s (is ++ [i]) r := by
  cases slotted with
  | dropped kind => exact .absent (writesSince_clear kind)
  | left kind other =>
      generalize e₁.slots[s]? = slot at configured
      cases configured with
      | absent unwritten => exact .absent ((writesSince_other kind other).trans unwritten)
      | @present before after writes first _ _ _ split unwritten kept since ran fields =>
          have grown : is ++ [i] = before ++ first :: (after ++ [i]) := by
            rw [split, List.append_assoc]
            rfl
          refine .present grown unwritten ?_ ((writesSince_other kind other).trans since) ran fields
          intro j hj
          rcases List.mem_append.mp hj with hj | hj
          · exact kept j hj
          · rwa [List.mem_singleton.mp hj]
  | @written writes r fields =>
      generalize e₁.slots[s]? = slot at configured fields
      cases configured with
      | absent unwritten =>
          -- the slot comes to be
          have only : writesSince s (is ++ [i]) = [i] := by
            rw [writesSince_write writes, unwritten]
            rfl
          refine .present rfl unwritten (by simp) only ran fun f => ?_
          rw [fields, Option.getD_none, f.of_plain, f.last?_single]
      | @present before after earlier first _ _ r₀ split unwritten kept since ran fields₀ =>
          have grown : is ++ [i] = before ++ first :: (after ++ [i]) := by
            rw [split, List.append_assoc]
            rfl
          have one_more : writesSince s (is ++ [i]) = first :: (earlier ++ [i]) := by
            rw [writesSince_write writes, since]
            rfl
          refine .present grown unwritten ?_ one_more ran ?_
          · intro j hj
            rcases List.mem_append.mp hj with hj | hj
            · exact kept j hj
            · rw [List.mem_singleton.mp hj]
              exact writes.not_clear
          · intro f
            rw [fields, Option.getD_some, fields₀, ← List.cons_append, f.last?_snoc]
            cases f.written? i <;> rfl

theorem configured (fresh : e.slots.isEmpty = true) (ran : actAll host is e h = .ok (e', h'))
    (s : Int32) : Configured host e h s is e'.slots[s]? := by
  induction is using List.reverseRecOn generalizing e' h' with
  | nil =>
      cases ran
      rw [Std.TreeMap.getElem?_of_isEmpty fresh]
      exact .absent rfl
  | append_singleton is i ih =>
      rw [actAll_snoc] at ran
      obtain ⟨⟨e₁, h₁⟩, ran₁, hact⟩ := bind_eq_ok.mp ran
      exact (ih ran₁).slotted ran₁ (act_slotted hact s)

/--
**The last write wins.**  Let some instructions be run from an emitter without slots.  A
slot is there afterwards just if it has been written to since the slots were last
dropped.  Then each of its fields is what has last been written to it since then, and one
that has not been written to is as it was when the slot came to be: zero, or the template
and color of the emitter of that moment, whatever has been set on it later.  An
instruction that fires leaves all slots as they are.
-/
theorem slots_lastWrite (fresh : e.slots.isEmpty = true)
    (ran : actAll host is e h = .ok (e', h')) (s : Int32) :
    (e'.slots.contains s = true ↔ writesSince s is ≠ []) ∧
      Configured host e h s is e'.slots[s]? ∧
      ∀ (i : Instruction Kind α) (e e' : Emitter α) (h h' : η), i.kind.fires = true →
        act host i e h = .ok (e', h') → e'.slots = e.slots := by
  have present := configured fresh ran s
  refine ⟨?_, present, fun i e e' h h' => act_slots_of_fires⟩
  rw [Std.TreeMap.contains_eq_isSome_getElem?]
  exact present.contains

/-- Slot 7 comes to be while bullets have template 1, after another slot 7 was dropped. -/
def recolored : List (Instruction Kind Float32) :=
  [Command.setSlotSpin 7 9.0, Command.clearSlots, Command.setBulletType 1 2,
   Command.setSlotSpeed 7 3.0, Command.setBulletType 5 6, Command.setSlotSpeed 7 4.0,
   Command.fireAllSlots]

theorem slots_lastWrite_recolored :
    let host := Recorder.host orbs true
    let r := Recorder.ofChance (.scripted #[0.5] 0)
    (Emitter.ofOrigin .zero : Emitter Float32).slots.isEmpty = true ∧ ∃ e' h' bullet,
      actAll host recolored (.ofOrigin .zero) r = .ok (e', h') ∧ e'.fired = 1 ∧
      e'.slots[(7 : Int32)]? = some bullet ∧ bullet.template = 1 ∧ bullet.speed = 4.0 ∧
      bullet.angularVelocity = 0.0 ∧
      Configured host (.ofOrigin .zero) r 7 recolored (some bullet) := by
  intro host r
  obtain ⟨e', h', bullet, ran, fired, here, template, speed, spin⟩ : ∃ e' h' bullet,
      actAll host recolored (.ofOrigin .zero) r = .ok (e', h') ∧ e'.fired = 1 ∧
        e'.slots[(7 : Int32)]? = some bullet ∧ bullet.template = 1 ∧ bullet.speed = 4.0 ∧
        bullet.angularVelocity = 0.0 := ⟨_, _, _, rfl, rfl, rfl, rfl, rfl, rfl⟩
  have configured := (slots_lastWrite rfl ran 7).2.1
  rw [here] at configured
  exact ⟨rfl, e', h', bullet, ran, fired, here, template, speed, spin, configured⟩

/-! ### Firing all slots is firing them one by one

Without jitter nothing is drawn, so a volley is the sequence of its bullets, and the one
of all slots has them in the order of the slots.
-/

/-- Without jitter, a volley is asked for and nothing is drawn. -/
theorem fire_calm (calm : e.jitter = 0.0) (zero : ((0.0 : α) == 0.0) = true) :
    fire host rounds e h = .ok (launchAll host 0.0 rounds e h) := by
  have same : { e with jitter := 0.0 } = e := by rw [← calm]
  unfold fire
  rw [if_pos (calm ▸ zero), same]

theorem act_fireSlot (calm : e.jitter = 0.0) (zero : ((0.0 : α) == 0.0) = true)
    (kind : i.kind = .fireSlot) :
    act host i e h = .ok (launchAll host 0.0 e.slots[i.extra]?.toList e h) := by
  rw [← fire_calm calm zero]
  unfold act volley?
  rw [kind]
  rfl

theorem act_fireAllSlots (calm : e.jitter = 0.0) (zero : ((0.0 : α) == 0.0) = true)
    (kind : i.kind = .fireAllSlots) :
    act host i e h = .ok (launchAll host 0.0 e.slots.values e h) := by
  rw [← fire_calm calm zero]
  unfold act volley?
  rw [kind]
  rfl

theorem launchAll_append (deviation : α) (rounds others : List (Round α)) (e : Emitter α) (h : η) :
    launchAll host deviation (rounds ++ others) e h =
      launchAll host deviation others (launchAll host deviation rounds e h).1
        (launchAll host deviation rounds e h).2 := by
  unfold launchAll
  rw [List.foldl_append]

/-- Slots that are fired one by one ask for their bullets as one volley does. -/
theorem actAll_fireSlot (calm : e.jitter = 0.0) (zero : ((0.0 : α) == 0.0) = true)
    (kinds : ∀ i ∈ is, i.kind = .fireSlot) :
    actAll host is e h = .ok (launchAll host 0.0 (is.filterMap (e.slots[·.extra]?)) e h) := by
  induction is generalizing e h with
  | nil => rfl
  | cons i rest ih =>
      have kind := kinds i List.mem_cons_self
      have split : (i :: rest).filterMap (e.slots[·.extra]?) =
          e.slots[i.extra]?.toList ++ rest.filterMap (e.slots[·.extra]?) := by
        rw [List.filterMap_cons]
        cases e.slots[i.extra]? <;> rfl
      obtain ⟨fired, hcount⟩ := launchAll_counts host 0.0 e.slots[i.extra]?.toList e h
      rw [actAll_cons, act_fireSlot calm zero kind, split, launchAll_append]
      show actAll host rest (launchAll host 0.0 e.slots[i.extra]?.toList e h).1 _ = _
      -- what the bullet leaves of the emitter has the same slots and no jitter either
      rw [hcount]
      exact ih calm fun j hj => kinds j (List.mem_cons_of_mem i hj)

/-- The values of a table are those under its keys, in ascending order. -/
theorem values_eq_filterMap {β : Type} {table : Std.TreeMap Int32 β} {keys : List Int32}
    (ascending : keys.Pairwise (· < ·)) (all : ∀ k, k ∈ keys ↔ table.contains k = true) :
    table.values = keys.filterMap (table[·]?) := by
  have same : keys = table.keys := by
    refine ascending.eq_of_mem_iff (Std.TreeMap.ordered_keys.imp Std.compare_eq_lt.mp) fun k => ?_
    rw [all, Std.TreeMap.mem_keys, Std.TreeMap.mem_iff_contains]
  have found : ∀ entry ∈ table.toList, table[entry.1]? = some entry.2 :=
    fun _ hentry => Std.TreeMap.mem_toList_iff_getElem?_eq_some.mp hentry
  rw [values_eq_map_toList, same, ← Std.TreeMap.map_fst_toList_eq_keys, List.filterMap_map,
    ← List.filterMap_eq_map]
  exact (List.filterMap_congr found).symm

/-- Without jitter, firing all slots comes to what firing each of them comes to. -/
theorem act_eq_actAll (calm : e.jitter = 0.0) (zero : ((0.0 : α) == 0.0) = true)
    (all : i.kind = .fireAllSlots) (single : ∀ j ∈ is, j.kind = .fireSlot)
    (ascending : (is.map (·.extra)).Pairwise (· < ·))
    (registered : ∀ s, s ∈ is.map (·.extra) ↔ e.slots.contains s = true) :
    act host i e h = .ok (launchAll host 0.0 e.slots.values e h) ∧
      actAll host is e h = act host i e h := by
  have same : e.slots.values = is.filterMap (e.slots[·.extra]?) := by
    rw [values_eq_filterMap ascending registered, List.filterMap_map]
    rfl
  have fired : act host i e h = .ok (launchAll host 0.0 e.slots.values e h) :=
    act_fireAllSlots calm zero all
  refine ⟨fired, ?_⟩
  rw [fired, actAll_fireSlot calm zero single, same]

/--
**All slots at once, or one by one.**  Let no jitter be pending, and let some
instructions fire each slot that there is once, in ascending order.  Then the instruction
that fires all slots makes the same calls as they do, one after the other, and the same
emitter and the same world come of both; neither of them can crash.
-/
theorem fireAllSlots_oneByOne (host : Host Float32 η) {e : Emitter Float32}
    (calm : e.jitter = 0.0) {all : Instruction Kind Float32} (kind : all.kind = .fireAllSlots)
    {singles : List (Instruction Kind Float32)} (single : ∀ i ∈ singles, i.kind = .fireSlot)
    (ascending : (singles.map (·.extra)).Pairwise (· < ·))
    (registered : ∀ s, s ∈ singles.map (·.extra) ↔ e.slots.contains s = true) (h : η) :
    ∃ e' h' calls,
      act host.recorded all e (h, []) = .ok (e', h', calls) ∧
      actAll host.recorded singles e (h, []) = .ok (e', h', calls) ∧
      act host all e h = .ok (e', h') ∧ actAll host singles e h = .ok (e', h') := by
  have zero : ((0.0 : Float32) == 0.0) = true := by decide
  obtain ⟨fired, same⟩ : act host.recorded all e (h, []) = _ ∧
      actAll host.recorded singles e (h, []) = act host.recorded all e (h, []) :=
    act_eq_actAll calm zero kind single ascending registered
  have unrecorded_same : actAll host singles e h = act host all e h :=
    (act_eq_actAll calm zero kind single ascending registered).2
  have plain : act host all e h = unrecorded <$> act host.recorded all e (h, []) :=
    act_unrecorded all e (h, [])
  rw [fired] at same plain
  exact ⟨_, _, _, fired, same, plain, unrecorded_same.trans plain⟩

/-- Three slots, the second of which has a template without a sprite. -/
def halfDressed : Emitter Float32 :=
  (((Emitter.ofOrigin .zero).modifySlot 5 id).modifySlot 2 fun r =>
    { r with template := 9 }).modifySlot 1 id

/-- Sprites for the bullets of the first template only. -/
def fewOrbs : Setting Float32 :=
  { orbs with sprite? := fun template color => if template = 0 then orbs.sprite? 0 color else none }

theorem fireAllSlots_oneByOne_halfDressed :
    let host := Recorder.host fewOrbs true
    let r := Recorder.ofChance (.scripted #[0.5] 0)
    let singles : List (Instruction Kind Float32) :=
      [Command.fireSlot 1, Command.fireSlot 2, Command.fireSlot 5]
    ∃ e' h' calls,
      act host.recorded Command.fireAllSlots halfDressed (r, []) = .ok (e', h', calls) ∧
      actAll host.recorded singles halfDressed (r, []) = .ok (e', h', calls) ∧
      e'.fired = 2 ∧ calls.length = 2 := by
  intro host r singles
  have kinds : ∀ i ∈ singles, i.kind = .fireSlot := by
    intro i hi
    simp only [singles, List.mem_cons, List.not_mem_nil, or_false] at hi
    obtain rfl | rfl | rfl := hi <;> rfl
  have registered : ∀ s, s ∈ singles.map (·.extra) ↔ halfDressed.slots.contains s = true := by
    intro s
    simp [singles, halfDressed, Emitter.modifySlot, Command.fireSlot, Std.TreeMap.contains_insert,
      Emitter.ofOrigin, Instruction.ofKind]
    exact or_congr eq_comm (or_congr eq_comm eq_comm)
  have kind : (Command.fireAllSlots : Instruction Kind Float32).kind = .fireAllSlots := rfl
  have ascending : (singles.map (·.extra)).Pairwise (· < ·) := by decide
  have calm : halfDressed.jitter = 0.0 := rfl
  obtain ⟨e', h', calls, fired, same, -⟩ :=
    fireAllSlots_oneByOne host calm kind kinds ascending registered r
  obtain ⟨e'', h'', calls'', ran, two, both⟩ : ∃ e'' h'' calls'',
      act host.recorded Command.fireAllSlots halfDressed (r, []) = .ok (e'', h'', calls'') ∧
        e''.fired = 2 ∧ calls''.length = 2 := ⟨_, _, _, rfl, rfl, rfl⟩
  obtain ⟨rfl, rfl, rfl⟩ : e' = e'' ∧ h' = h'' ∧ calls = calls'' := by
    simpa using fired.symm.trans ran
  exact ⟨e', h', calls, fired, same, two, both⟩

/-! ### The color of a slot is rounded

The color is an operand that holds a number, so it is brought to binary32 and back.  Up
to 24 bits this changes nothing; what it makes of larger colors is in `Single.Whole`.
-/

/--
**The color of a slot is rounded.**  The instruction that sets the appearance of a slot
leaves the slot with its template, but the color travels as a binary32 number: it arrives
as a nearest one of those with 24 bits, and not above the greatest number of 32 bits.
So it arrives as it was just if it has 24 bits at most, apart from zeros at its end, or is
that greatest number.
-/
theorem setSlotBulletType_rounds (host : Host Float32 η) (slot template color : Int32)
    (e : Emitter Float32) (h : η) :
    ∃ e' bullet v,
      act host (Command.setSlotBulletType slot template color) e h = .ok (e', h) ∧
      e'.slots[slot]? = some bullet ∧ bullet.template = template ∧
      (bullet.color = color ↔ Single.Short color ∨ color = Int32.maxValue) ∧
      Single.Nearest color.toInt.natAbs (color.toInt.natAbs.log2 - 23) v ∧
      bullet.color.toInt = min (color.toInt.sign * v) Int32.maxValue.toInt := by
  obtain ⟨v, nearest, -, back⟩ := Single.toInt_trunc_ofInt32 color
  refine ⟨_, _, v, rfl, Std.TreeMap.getElem?_insert_self, rfl, ?_, nearest, back⟩
  exact Single.trunc_ofInt32_eq_iff color

/-- The least color that is not kept. -/
theorem setSlotBulletType_rounds_down :
    let r := Recorder.ofChance (.scripted #[0.5] 0)
    ∃ e' bullet,
      act (Recorder.host orbs true) (Command.setSlotBulletType 1 2 16777217)
        (.ofOrigin .zero : Emitter Float32) r = .ok (e', r) ∧
      e'.slots[(1 : Int32)]? = some bullet ∧ bullet.template = 2 ∧ bullet.color = 16777216 ∧
      bullet.color ≠ 16777217 :=
  ⟨_, _, rfl, rfl, rfl, rfl, by decide⟩

end Barrage.Shot
