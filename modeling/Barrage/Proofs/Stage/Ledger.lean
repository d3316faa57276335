/-
What a store holds, as a ledger.

A ledger says how many handles a store has given out and lists the entities that it
holds, each with the place where it stands; the order does not matter.  Every operation
of the store is one entry: it adds an entity, removes one, or writes down a new place.
Handles are counted up, so a new one is never in the ledger already, as long as the count
fits into a handle.
-/
import Std.Data.TreeMap.Lemmas
import Mathlib.Algebra.Group.Nat.Defs
import Mathlib.Data.List.Nodup
import Barrage.Stage.Store

namespace Barrage

/-- An entity and where it stands. -/
abbrev Place := Handle × Vec2 Float32

namespace Store

/-- Where an entity stands. -/
def place? (s : Store) (handle : Handle) : Option (Vec2 Float32) :=
  (s.transform? handle).map (·.position)

/-- Stores from which `n` handles were given out. -/
inductive Gave : Nat → Store → Prop
  | empty : Gave 0 .empty
  | spawn {n : Nat} {s : Store} (h : Gave n s) : Gave (n + 1) s.spawn.2
  | spawnBullet {n : Nat} {s : Store} (h : Gave n s) (launch : Bullet.Launch Float32) :
      Gave (n + 1) (s.spawnBullet launch).2
  | setPosition {n : Nat} {s : Store} (h : Gave n s) (handle : Handle) (position : Vec2 Float32) :
      Gave n (s.setPosition handle position)
  | setRotation {n : Nat} {s : Store} (h : Gave n s) (handle : Handle) (rotation : Float32) :
      Gave n (s.setRotation handle rotation)
  | destroy {n : Nat} {s : Store} (h : Gave n s) (handle : Handle) : Gave n (s.destroy handle)
  /-- The bullets asked for are taken up. -/
  | collect {n : Nat} {s : Store} (h : Gave n s) : Gave n { s with queued := #[] }

/-- The store holds these entities, whose handles are among the first `n`. -/
structure Holds (s : Store) (n : Nat) (places : List Place) : Prop where
  distinct : (places.map (·.1)).Nodup
  exact : ∀ handle position, s.place? handle = some position ↔ (handle, position) ∈ places
  given : ∀ place ∈ places, place.1.id.toNat ≤ n

/-- The store has given out `n` handles and holds these entities, unless handles were given out
twice. -/
structure Ledger (s : Store) (n : Nat) (places : List Place) : Prop where
  gave : s.Gave n
  holds : n < 2 ^ 32 → s.Holds n places

variable {s : Store} {n : Nat} {places places' : List Place} {handle other : Handle}
  {position position' : Vec2 Float32}

/-! ### Single operations

The store is a map from handles to transforms, and these lemmas say what each operation
does to the place of one handle.  The map compares handles by their numbers, which is
the same as comparing the handles.
-/

theorem handle_ext (same : handle.id = other.id) : handle = other := by
  cases handle
  cases other
  exact congrArg Handle.mk same

theorem compare_id_iff : compare handle.id other.id = .eq ↔ other = handle := by
  rw [Std.compare_eq_iff_eq]
  exact ⟨fun same => (handle_ext same).symm, fun same => same ▸ rfl⟩

@[simp] theorem modify_last (s : Store) (handle : Handle) (change : Transform → Transform) :
    (s.modify handle change).last = s.last := by
  unfold modify
  split <;> rfl

/-- The last handle is the number of those given out. -/
theorem Gave.last (h : s.Gave n) : s.last = UInt32.ofNat n := by
  induction h with
  | empty => rfl
  | spawn _ ih | spawnBullet _ _ ih =>
      show _ + 1 = _
      rw [ih]
      simp
  | setPosition _ _ _ ih | setRotation _ _ _ ih =>
      exact (modify_last _ _ _).trans ih
  | destroy _ _ ih | collect _ ih => exact ih

theorem place?_allocate (t : Transform) (s : Store) (other : Handle) :
    (s.allocate t).2.place? other =
      if other = (s.allocate t).1 then some t.position else s.place? other := by
  show ((s.transforms.insert (s.allocate t).1.id t)[other.id]?).map (·.position) = _
  rw [Std.TreeMap.getElem?_insert]
  by_cases hsame : other = (s.allocate t).1
  · rw [if_pos (compare_id_iff.mpr hsame), if_pos hsame]
    rfl
  · rw [if_neg (mt compare_id_iff.mp hsame), if_neg hsame]
    rfl

theorem place?_modify (s : Store) (handle : Handle) (change : Transform → Transform)
    (other : Handle) : (s.modify handle change).place? other =
      if other = handle then (s.transform? handle).map fun t => (change t).position
      else s.place? other := by
  unfold modify
  cases htransform : s.transform? handle with
  | none =>
      by_cases hsame : other = handle
      · rw [if_pos hsame, hsame, place?, htransform]
        rfl
      · rw [if_neg hsame]
  | some t =>
      show ((s.transforms.insert handle.id (change t))[other.id]?).map (·.position) = _
      rw [Std.TreeMap.getElem?_insert]
      by_cases hsame : other = handle
      · rw [if_pos (compare_id_iff.mpr hsame), if_pos hsame]
        rfl
      · rw [if_neg (mt compare_id_iff.mp hsame), if_neg hsame]
        rfl

theorem place?_setRotation (s : Store) (handle : Handle) (rotation : Float32) (other : Handle) :
    (s.setRotation handle rotation).place? other = s.place? other := by
  rw [setRotation, place?_modify]
  split
  · rename_i hsame
    rw [hsame]
    rfl
  · rfl

theorem place?_destroy (s : Store) (handle other : Handle) :
    (s.destroy handle).place? other = if other = handle then none else s.place? other := by
  show ((s.transforms.erase handle.id)[other.id]?).map (·.position) = _
  rw [Std.TreeMap.getElem?_erase]
  by_cases hsame : other = handle
  · rw [if_pos (compare_id_iff.mpr hsame), if_pos hsame]
    rfl
  · rw [if_neg (mt compare_id_iff.mp hsame), if_neg hsame]
    rfl

/-! ### Entries

What an operation of the store does to the list of places.  A new handle is one that is
not in the list only if the count has not come round yet, which is what `room` is for;
all other operations keep the count.
-/

theorem Holds.perm (h : s.Holds n places) (same : places.Perm places') : s.Holds n places' where
  distinct := ((same.map _).nodup_iff).mp h.distinct
  exact handle position := (h.exact handle position).trans same.mem_iff
  given place hmem := h.given place (same.mem_iff.mpr hmem)

/-- The queue is not part of the ledger. -/
theorem Holds.of_queue (h : s.Holds n places) (queued : Array (Handle × Bullet.Launch Float32)) :
    { s with queued }.Holds n places :=
  ⟨h.distinct, h.exact, h.given⟩

theorem Holds.allocate (h : s.Holds n places) (gave : s.Gave n) (room : n + 1 < 2 ^ 32)
    (t : Transform) :
    (s.allocate t).2.Holds (n + 1) (((s.allocate t).1, t.position) :: places) := by
  have hid : (s.allocate t).1.id.toNat = n + 1 := by
    show (s.last + 1).toNat = n + 1
    rw [gave.last, UInt32.toNat_add, UInt32.toNat_ofNat']
    show (n % 2 ^ 32 + 1) % 2 ^ 32 = n + 1
    omega
  have fresh : ∀ place ∈ places, place.1 ≠ (s.allocate t).1 := by
    intro place hmem hsame
    have hle := h.given place hmem
    rw [hsame, hid] at hle
    omega
  refine ⟨?_, ?_, ?_⟩
  · rw [List.map_cons, List.nodup_cons]
    refine ⟨fun hmem => ?_, h.distinct⟩
    obtain ⟨place, hplace, hsame⟩ := List.mem_map.mp hmem
    exact fresh place hplace hsame
  · intro handle position
    rw [place?_allocate, List.mem_cons]
    by_cases hnew : handle = (s.allocate t).1
    · have hold : (handle, position) ∉ places := fun hmem => fresh _ hmem hnew
      rw [if_pos hnew, hnew]
      rw [hnew] at hold
      simp [hold, eq_comm]
    · rw [if_neg hnew, h.exact handle position]
      simp [hnew]
  · intro place hmem
    rcases List.mem_cons.mp hmem with rfl | hmem
    · exact Nat.le_of_eq hid
    · exact Nat.le_succ_of_le (h.given place hmem)

theorem Holds.setPosition (h : s.Holds n ((handle, position) :: places))
    (position' : Vec2 Float32) :
    (s.setPosition handle position').Holds n ((handle, position') :: places) := by
  have hdistinct := h.distinct
  rw [List.map_cons, List.nodup_cons] at hdistinct
  obtain ⟨t, htransform, -⟩ :=
    Option.map_eq_some_iff.mp ((h.exact handle position).mpr List.mem_cons_self)
  refine ⟨List.nodup_cons.mpr hdistinct, ?_, ?_⟩
  · intro other target
    rw [Store.setPosition, place?_modify, htransform]
    by_cases hsame : other = handle
    · subst hsame
      have hold : (other, target) ∉ places :=
        fun hmem => hdistinct.1 (List.mem_map.mpr ⟨_, hmem, rfl⟩)
      simp [hold, eq_comm]
    · rw [if_neg hsame, h.exact other target]
      simp [hsame]
  · intro place hmem
    rcases List.mem_cons.mp hmem with rfl | hmem
    · exact h.given (handle, position) List.mem_cons_self
    · exact h.given place (List.mem_cons_of_mem _ hmem)

theorem Holds.setRotation (h : s.Holds n places) (handle : Handle) (rotation : Float32) :
    (s.setRotation handle rotation).Holds n places where
  distinct := h.distinct
  exact other position := by
    rw [place?_setRotation]
    exact h.exact other position
  given := h.given

theorem Holds.destroy (h : s.Holds n ((handle, position) :: places)) :
    (s.destroy handle).Holds n places := by
  have hdistinct := h.distinct
  rw [List.map_cons, List.nodup_cons] at hdistinct
  refine ⟨hdistinct.2, ?_, fun place hmem => h.given place (List.mem_cons_of_mem _ hmem)⟩
  intro other target
  rw [place?_destroy]
  by_cases hsame : other = handle
  · subst hsame
    have hold : (other, target) ∉ places :=
      fun hmem => hdistinct.1 (List.mem_map.mpr ⟨_, hmem, rfl⟩)
    simp [hold]
  · rw [if_neg hsame, h.exact other target]
    simp [hsame]

/-! ### Ledgers

The condition on the count is part of a ledger and comes up once, in `allocate`.
Whoever keeps a ledger over a tick need not think of it, and it is discharged at the
end.
-/

theorem ledger_empty : empty.Ledger 0 [] where
  gave := .empty
  holds _ := by
    refine ⟨List.nodup_nil, fun handle position => ?_, by simp⟩
    have hnone : empty.transform? handle = none := Std.TreeMap.getElem?_emptyc
    simp [place?, hnone]

theorem Ledger.perm (h : s.Ledger n places) (same : places.Perm places') : s.Ledger n places' :=
  ⟨h.gave, fun room => (h.holds room).perm same⟩

theorem Ledger.collect (h : s.Ledger n places) : { s with queued := #[] }.Ledger n places :=
  ⟨h.gave.collect, fun room => (h.holds room).of_queue #[]⟩

/-- A new entity stands at the origin. -/
theorem Ledger.spawn (h : s.Ledger n places) :
    s.spawn.2.Ledger (n + 1) ((s.spawn.1, .zero) :: places) where
  gave := h.gave.spawn
  holds room := (h.holds (Nat.lt_of_succ_lt room)).allocate h.gave room _

/-- A bullet that is asked for stands where it will take off. -/
theorem Ledger.spawnBullet (h : s.Ledger n places) (launch : Bullet.Launch Float32) :
    (s.spawnBullet launch).2.Ledger (n + 1)
      (((s.spawnBullet launch).1, launch.position) :: places) where
  gave := h.gave.spawnBullet launch
  holds room := ((h.holds (Nat.lt_of_succ_lt room)).allocate h.gave room _).of_queue _

theorem Ledger.setPosition (h : s.Ledger n ((handle, position) :: places))
    (position' : Vec2 Float32) :
    (s.setPosition handle position').Ledger n ((handle, position') :: places) :=
  ⟨h.gave.setPosition handle position', fun room => (h.holds room).setPosition position'⟩

theorem Ledger.setRotation (h : s.Ledger n places) (handle : Handle) (rotation : Float32) :
    (s.setRotation handle rotation).Ledger n places :=
  ⟨h.gave.setRotation handle rotation, fun room => (h.holds room).setRotation handle rotation⟩

theorem Ledger.destroy (h : s.Ledger n ((handle, position) :: places)) :
    (s.destroy handle).Ledger n places :=
  ⟨h.gave.destroy handle, fun room => (h.holds room).destroy⟩

/-- The keys of the store are those of the entities that it holds. -/
theorem Holds.keys (h : s.Holds n places) :
    s.transforms.keys.Perm (places.map (·.1.id)) := by
  have distinct : ((places.map (·.1)).map (·.id)).Nodup :=
    h.distinct.map fun _ _ => handle_ext
  rw [List.map_map] at distinct
  refine (List.perm_ext_iff_of_nodup Std.TreeMap.nodup_keys distinct).mpr fun id => ?_
  rw [Std.TreeMap.mem_keys, Std.TreeMap.mem_iff_isSome_getElem?, List.mem_map]
  constructor
  · intro here
    obtain ⟨t, ht⟩ := Option.isSome_iff_exists.mp here
    have hplace : s.place? ⟨id⟩ = some t.position := by
      rw [place?, show s.transform? ⟨id⟩ = some t from ht]
      rfl
    exact ⟨_, (h.exact _ _).mp hplace, rfl⟩
  · intro ⟨place, hmem, hid⟩
    obtain ⟨t, ht, -⟩ := Option.map_eq_some_iff.mp ((h.exact place.1 place.2).mpr hmem)
    rw [← show place.1.id = id from hid]
    exact Option.isSome_iff_exists.mpr ⟨t, ht⟩

end Store

end Barrage
