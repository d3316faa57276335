/-
What becomes of the labels of a program that is built call by call.

Instructions are appended whatever happens, but labels only count until the first of them
is refused.  So it is not enough to say what one call does to the builder: which label
is refused, and with what positions, depends on all the calls before it.

`Follows` says it of the calls alone, and is kept by one more call.  The labels that the
builder has are of use in it only as long as none was refused; from then on the error is
all that counts, and it is that of the first label that could not be accepted.
-/
import Mathlib.Data.List.Induction
import Mathlib.Data.String.Basic
import Barrage.Bullet.Vocabulary
import Barrage.Proofs.Script.Layout
import Barrage.Single

namespace Barrage

/-! ### The listing of labels

The listing is a sorted copy of the labels of a program.  It says the same as the lookup
of a name as long as no name stands twice, and this is what the builder sees to.
-/

namespace Program

variable {κ α : Type} [Vocabulary κ] [Scalar α] {p : Program κ α} {name : String} {k : Nat}

theorem mem_labels_iff {labels : List (String × Nat)} (names : (labels.map (·.1)).Nodup) :
    (name, k) ∈ labels ↔ labels.lookup name = some k := by
  induction labels with
  | nil => simp
  | cons l rest ih =>
      obtain ⟨other, j⟩ := l
      obtain ⟨hother, hrest⟩ := List.nodup_cons.mp names
      rw [List.lookup_cons, List.mem_cons]
      by_cases same : name = other
      · subst same
        have absent : (name, k) ∉ rest := fun hmem => hother (List.mem_map.mpr ⟨_, hmem, rfl⟩)
        simp [absent, eq_comm]
      · have differs : (name == other) = false := by simpa using same
        simp [differs, same, ih hrest]

theorem mem_labelListing_iff (names : (p.labels.map (·.1)).Nodup) :
    (name, k) ∈ p.labelListing ↔ p.position? name = some k := by
  rw [Program.labelListing, List.mem_mergeSort]
  exact mem_labels_iff names

theorem labelListing_names (names : (p.labels.map (·.1)).Nodup) :
    (p.labelListing.map (·.1)).Nodup :=
  ((List.mergeSort_perm _ _).map _).nodup_iff.mpr names

/-- No two labels have the same name, so each is strictly before the next. -/
theorem labelListing_ascending (names : (p.labels.map (·.1)).Nodup) :
    p.labelListing.Pairwise fun l m => l.2 < m.2 ∨ l.2 = m.2 ∧ l.1 < m.1 := by
  have sorted : p.labelListing.Pairwise fun l m =>
      decide (l.2 < m.2 ∨ l.2 = m.2 ∧ l.1 ≤ m.1) = true := by
    refine List.pairwise_mergeSort ?_ ?_ p.labels
    · intro l m n hlm hmn
      simp only [decide_eq_true_eq] at hlm hmn ⊢
      rcases hlm with hlm | ⟨hlm, hle⟩ <;> rcases hmn with hmn | ⟨hmn, hle'⟩
      · exact .inl (hlm.trans hmn)
      · exact .inl (hmn ▸ hlm)
      · exact .inl (hlm ▸ hmn)
      · exact .inr ⟨hlm.trans hmn, String.le_trans hle hle'⟩
    · intro l m
      simp only [Bool.or_eq_true, decide_eq_true_eq]
      rcases Nat.lt_trichotomy l.2 m.2 with hlt | heq | hgt
      · exact .inl (.inl hlt)
      · exact (String.le_total l.1 m.1).imp (fun h => .inr ⟨heq, h⟩) fun h => .inr ⟨heq.symm, h⟩
      · exact .inr (.inl hgt)
  have distinct := List.pairwise_map.mp (labelListing_names names)
  refine (sorted.and distinct).imp ?_
  rintro l m ⟨hle, hne⟩
  simp only [decide_eq_true_eq] at hle
  exact hle.imp_right fun ⟨heq, hle⟩ => ⟨heq, lt_of_le_of_ne hle hne⟩

end Program

namespace Builder

variable {κ α : Type}

/-! ### What the calls alone say

All of these speak of the sequence of calls and none of a builder: which label is
refused is decided by the calls before it.  A refusal depends only on whether the name
is empty or has been declared before, so the first one can be told without following
what is built.
-/

/-- One call on a program under construction. -/
inductive Call (κ α : Type) where
  | push (i : Instruction κ α)
  | append (code : List (Instruction κ α))
  | label (name : String)

/-- The instructions that a call appends. -/
def Call.code : Call κ α → List (Instruction κ α)
  | .push i => [i]
  | .append code => code
  | .label _ => []

def perform (b : Builder κ α) : Call κ α → Builder κ α
  | .push i => b.push i
  | .append code => b.append code
  | .label name => b.label name

/-- What has been built by some calls. -/
def after (calls : List (Call κ α)) : Builder κ α :=
  calls.foldl perform empty

/-- The instructions that some calls append. -/
def appended (calls : List (Call κ α)) : List (Instruction κ α) :=
  calls.flatMap Call.code

/-- One of the calls declares the label, right behind those before it. -/
def Declares (calls before : List (Call κ α)) (name : String) : Prop :=
  before ++ [.label name] <+: calls

/-- Behind these calls, the label cannot be declared: it is empty, or it has been declared
before, at a first place. -/
inductive Refuses (before : List (Call κ α)) : String → LabelError → Prop
  | empty : Refuses before "" (.empty (appended before).length)
  | duplicate {earlier : List (Call κ α)} {name : String} (named : name ≠ "")
      (declared : Declares before earlier name) (first : .label name ∉ earlier) :
      Refuses before name
        (.duplicate name (appended earlier).length (appended before).length)

/-- Every label is new when it is declared, and none is empty. -/
def Accepts (calls : List (Call κ α)) : Prop :=
  ∀ before name, Declares calls before name → name ≠ "" ∧ .label name ∉ before

/-- The error is that of the first label that cannot be declared. -/
def Fails (calls : List (Call κ α)) (e : LabelError) : Prop :=
  ∃ before name, Declares calls before name ∧ Accepts before ∧ Refuses before name e

variable {calls before : List (Call κ α)} {c : Call κ α} {name : String} {e : LabelError} {k : Nat}

/-! ### One more call

Each of the notions above for a sequence with one more call at its end.  They are what
the induction over calls rewrites with, and the reason that it goes from left to right.
-/

theorem appended_concat (calls : List (Call κ α)) (c : Call κ α) :
    appended (calls ++ [c]) = appended calls ++ c.code := by
  simp [appended]

theorem declares_concat :
    Declares (calls ++ [c]) before name ↔
      before = calls ∧ c = .label name ∨ Declares calls before name := by
  unfold Declares
  rw [List.prefix_concat_iff]
  refine or_congr_left ⟨fun h => ?_, ?_⟩
  · obtain ⟨hbefore, hlast⟩ := List.append_inj' h rfl
    exact ⟨hbefore, (List.singleton_inj.mp hlast).symm⟩
  · rintro ⟨rfl, rfl⟩
    rfl

theorem exists_declares_iff : (∃ before, Declares calls before name) ↔ .label name ∈ calls := by
  constructor
  · rintro ⟨before, rest, rfl⟩
    simp
  · intro h
    obtain ⟨before, rest, rfl⟩ := List.append_of_mem h
    exact ⟨before, rest, by simp⟩

theorem accepts_concat : Accepts (calls ++ [c]) ↔
    Accepts calls ∧ ∀ name, c = .label name → name ≠ "" ∧ .label name ∉ calls := by
  constructor
  · intro h
    refine ⟨fun before name hd => h before name (declares_concat.mpr (.inr hd)), ?_⟩
    intro name hc
    exact h calls name (declares_concat.mpr (.inl ⟨rfl, hc⟩))
  · rintro ⟨h, hlast⟩ before name hd
    rcases declares_concat.mp hd with ⟨rfl, hc⟩ | hd
    · exact hlast name hc
    · exact h before name hd

theorem fails_concat : Fails (calls ++ [c]) e ↔
    Fails calls e ∨ Accepts calls ∧ ∃ name, c = .label name ∧ Refuses calls name e := by
  constructor
  · rintro ⟨before, name, hd, accepts, refuses⟩
    rcases declares_concat.mp hd with ⟨rfl, hc⟩ | hd
    · exact .inr ⟨accepts, name, hc, refuses⟩
    · exact .inl ⟨before, name, hd, accepts, refuses⟩
  · rintro (⟨before, name, hd, rest⟩ | ⟨accepts, name, hc, refuses⟩)
    · exact ⟨before, name, declares_concat.mpr (.inr hd), rest⟩
    · exact ⟨calls, name, declares_concat.mpr (.inl ⟨rfl, hc⟩), accepts, refuses⟩

theorem Refuses.bad (h : Refuses before name e) : name = "" ∨ .label name ∈ before := by
  cases h with
  | empty => exact .inl rfl
  | duplicate _ declared _ => exact .inr (exists_declares_iff.mp ⟨_, declared⟩)

theorem Fails.not_accepts (h : Fails calls e) : ¬ Accepts calls := by
  obtain ⟨before, name, hd, -, refuses⟩ := h
  intro accepts
  obtain ⟨named, new⟩ := accepts before name hd
  exact refuses.bad.elim named new

/-! ### The builder follows its calls

There are two regimes.  As long as no label was refused, the labels that the builder has
are those that were declared, each with its position; after the first refusal its labels
mean nothing and the error stays as it is.  `Follows` has a field for each, and a label
is the only call that can lead from the one to the other.
-/

/-- The builder is what the calls have made of it. -/
structure Follows (b : Builder κ α) (calls : List (Call κ α)) : Prop where
  code : b.code.toList = appended calls
  accepts : b.error = none ↔ Accepts calls
  error : ∀ e, b.error = some e ↔ Fails calls e
  /-- Until a label is refused, those that were declared are known, each with its position. -/
  labels : b.error = none → ∀ name k, b.labels.lookup name = some k ↔
    ∃ before, Declares calls before name ∧ (appended before).length = k
  names : (b.labels.map (·.1)).Nodup

variable {b : Builder κ α}

theorem Follows.position (h : b.Follows calls) : b.code.size = (appended calls).length := by
  rw [← h.code, Array.length_toList]

theorem Follows.label_mem_iff (h : b.Follows calls) (fine : b.error = none) :
    (b.labels.lookup name).isSome ↔ .label name ∈ calls := by
  rw [Option.isSome_iff_exists, ← exists_declares_iff]
  constructor
  · rintro ⟨k, hk⟩
    obtain ⟨before, hd, -⟩ := (h.labels fine name k).mp hk
    exact ⟨before, hd⟩
  · rintro ⟨before, hd⟩
    exact ⟨_, (h.labels fine name _).mpr ⟨before, hd, rfl⟩⟩

theorem follows_empty : (empty : Builder κ α).Follows [] where
  code := rfl
  accepts := by simp [empty, Accepts, Declares]
  error := by simp [empty, Fails, Declares]
  labels := by simp [empty, Declares]
  names := List.nodup_nil

theorem Follows.append (h : b.Follows calls) (hc : ∀ name, c ≠ .label name) :
    (b.append c.code).Follows (calls ++ [c]) where
  code := by
    rw [appended_concat, ← h.code]
    simp [Builder.append]
  accepts := by
    rw [accepts_concat, and_iff_left fun name hname => absurd hname (hc name)]
    exact h.accepts
  error e := by
    rw [fails_concat, or_iff_left (by simp [hc])]
    exact h.error e
  labels fine name k := by
    simp only [declares_concat, hc, and_false, false_or]
    exact h.labels fine name k
  names := h.names

/-- After the first error, a label changes nothing. -/
theorem Follows.label_ignored (h : b.Follows calls) (failed : b.error = some e) :
    (b.label name).Follows (calls ++ [.label name]) := by
  have fails := (h.error e).mp failed
  have same : b.label name = b := by simp [label, failed]
  rw [same]
  exact {
    code := by rw [h.code, appended_concat, Call.code, List.append_nil]
    accepts := by
      rw [accepts_concat, h.accepts]
      exact iff_of_false fails.not_accepts fun both => fails.not_accepts both.1
    error := fun e => by
      rw [fails_concat, or_iff_left fun both => fails.not_accepts both.1]
      exact h.error e
    labels := fun fine => by
      rw [failed] at fine
      cases fine
    names := h.names }

/-- A label that cannot be declared is the first such. -/
theorem Follows.label_refused (h : b.Follows calls) (fine : b.error = none)
    (refuses : ∀ e', Refuses calls name e' ↔ e' = e)
    (refused : b.label name = { b with error := some e }) :
    (b.label name).Follows (calls ++ [.label name]) := by
  have accepts := h.accepts.mp fine
  rw [refused]
  exact {
    code := by rw [h.code, appended_concat, Call.code, List.append_nil]
    accepts := by
      have fails : Fails (calls ++ [.label name]) e :=
        fails_concat.mpr (.inr ⟨accepts, name, rfl, (refuses e).mpr rfl⟩)
      exact iff_of_false (by simp) fails.not_accepts
    error := fun e' => by
      have none : ¬ Fails calls e' := fun fails => fails.not_accepts accepts
      rw [fails_concat, or_iff_right none, and_iff_right accepts]
      simp [refuses, eq_comm]
    labels := fun fine => by cases fine
    names := h.names }

/-- A label that can be declared marks the instruction that comes next. -/
theorem Follows.label_accepted (h : b.Follows calls) (fine : b.error = none) (named : name ≠ "")
    (new : b.labels.lookup name = none) : (b.label name).Follows (calls ++ [.label name]) := by
  obtain ⟨herror, hcode, hlabels⟩ := label_eq fine named new
  have absent : .label name ∉ calls := by
    rw [← h.label_mem_iff fine, new]
    simp
  have accepts : Accepts (calls ++ [.label name]) := by
    refine accepts_concat.mpr ⟨h.accepts.mp fine, ?_⟩
    rintro _ ⟨⟩
    exact ⟨named, absent⟩
  exact {
    code := by rw [hcode, h.code, appended_concat, Call.code, List.append_nil]
    accepts := iff_of_true herror accepts
    error := fun e => by
      refine iff_of_false (by simp [herror]) fun fails => fails.not_accepts accepts
    labels := fun _ other k => by
      rw [hlabels, List.lookup_append, h.position]
      by_cases same : other = name
      · subst same
        have undeclared : ∀ before, ¬ Declares calls before other :=
          fun before hd => absent (exists_declares_iff.mp ⟨before, hd⟩)
        simp [new, declares_concat, undeclared]
      · have differs : (other == name) = false := by simpa using same
        have apart : Call.label name ≠ (.label other : Call κ α) := by
          intro heq
          exact same (Call.label.inj heq).symm
        simp [List.lookup_cons, differs, declares_concat, apart, h.labels fine other k]
    names := by
      rw [hlabels, List.map_append]
      refine List.nodup_append.mpr ⟨h.names, List.nodup_singleton _, ?_⟩
      intro other hother _ hname heq
      obtain rfl : other = name := by simpa [heq] using hname
      obtain ⟨l, hl, hlname⟩ := List.mem_map.mp hother
      have known := List.lookup_eq_none_iff.mp new l hl
      simp [hlname] at known }

theorem Follows.refuses_empty_iff (h : b.Follows calls) :
    Refuses calls "" e ↔ e = .empty b.code.size := by
  rw [h.position]
  constructor
  · intro refuses
    cases refuses with
    | empty => rfl
    | duplicate named _ _ => exact absurd rfl named
  · rintro rfl
    exact .empty

theorem Follows.refuses_known_iff (h : b.Follows calls) (fine : b.error = none)
    (named : name ≠ "") (known : b.labels.lookup name = some k) :
    Refuses calls name e ↔ e = .duplicate name k b.code.size := by
  rw [h.position]
  constructor
  · intro refuses
    cases refuses with
    | empty => exact absurd rfl named
    | duplicate _ declared _ =>
        have first := (h.labels fine name _).mpr ⟨_, declared, rfl⟩
        rw [Option.some.inj (known.symm.trans first)]
  · rintro rfl
    obtain ⟨earlier, declared, rfl⟩ := (h.labels fine name k).mp known
    exact .duplicate named declared ((h.accepts.mp fine) _ _ declared).2

theorem Follows.perform (h : b.Follows calls) (c : Call κ α) :
    (b.perform c).Follows (calls ++ [c]) := by
  cases c with
  | push i => exact h.append (c := .push i) (by simp)
  | append code => exact h.append (c := .append code) (by simp)
  | label name =>
      show (b.label name).Follows _
      cases failed : b.error with
      | some e => exact h.label_ignored failed
      | none =>
          by_cases named : name = ""
          · subst named
            refine h.label_refused failed (fun _ => h.refuses_empty_iff) ?_
            simp [label, failed]
          cases known : b.labels.lookup name with
          | none => exact h.label_accepted failed named known
          | some first =>
              refine h.label_refused failed (fun _ => h.refuses_known_iff failed named known) ?_
              simp [label, failed, named, known]

theorem follows_after (calls : List (Call κ α)) : (after calls).Follows calls := by
  induction calls using List.reverseRecOn with
  | nil => exact follows_empty
  | append_singleton calls c ih =>
      rw [after, List.foldl_append]
      exact ih.perform c

/-! ### The program -/

variable [Vocabulary κ] [Scalar α]

/-- The program has the instructions that the calls append, and its labels are where they were
declared. -/
structure Resolves (calls : List (Call κ α)) (p : Program κ α) : Prop where
  code : p.code.toList = appended calls
  /-- A label marks what is appended behind its declaration. -/
  position : ∀ name k, p.position? name = some k ↔
    ∃ before, Declares calls before name ∧ (appended before).length = k
  unknown : ∀ name, p.position? name = none ↔ .label name ∉ calls
  onTape : ∀ name k, p.position? name = some k → k ≤ p.size
  listed : ∀ name k, (name, k) ∈ p.labelListing ↔ p.position? name = some k
  once : (p.labelListing.map (·.1)).Nodup
  ascending : p.labelListing.Pairwise fun l m => l.2 < m.2 ∨ l.2 = m.2 ∧ l.1 < m.1

theorem Follows.resolves {p : Program κ α} (h : b.Follows calls) (hbuild : b.build = .ok p) :
    Resolves calls p := by
  unfold build at hbuild
  split at hbuild
  · cases hbuild
  · rename_i fine
    cases hbuild
    have unknown : ∀ name, b.labels.lookup name = none ↔ .label name ∉ calls := by
      intro name
      rw [← h.label_mem_iff fine, Option.not_isSome_iff_eq_none]
    exact {
      code := h.code
      position := h.labels fine
      unknown
      onTape := fun name k => Program.position?_le
      listed := fun name k => Program.mem_labelListing_iff h.names
      once := Program.labelListing_names h.names
      ascending := Program.labelListing_ascending h.names }

theorem build_eq_error_iff (b : Builder κ α) : b.build = .error e ↔ b.error = some e := by
  unfold build
  split
  · rename_i failed
    simp [failed, Except.error.injEq]
  · rename_i fine
    simp [fine]

/--
**Labels mark what is appended behind them, and the first bad one is reported.**  A program
that is built by any calls is refused just if some label is empty or repeats an earlier
one.  The error is then that of the first such label: its position, and for a repeated
one also the first, are the numbers of instructions that were appended before.  Otherwise
the program has exactly the instructions that were appended, a label is known just if it
was declared, and the labels are listed once each, by position and name.
-/
theorem build_resolves (calls : List (Call κ α)) :
    (∀ e, (after calls).build = .error e ↔
      ∃ before name, Declares calls before name ∧ Accepts before ∧ Refuses before name e) ∧
    ((∃ e, (after calls).build = .error e) ↔
      ∃ before name, Declares calls before name ∧ (name = "" ∨ .label name ∈ before)) ∧
    ∀ p, (after calls).build = .ok p → Resolves calls p := by
  have follows := follows_after calls
  refine ⟨fun e => ?_, ?_, fun p hbuild => follows.resolves hbuild⟩
  · rw [build_eq_error_iff]
    exact follows.error e
  · have refused : (∃ e, (after calls).build = .error e) ↔ ¬ Accepts calls := by
      rw [← follows.accepts, ← ne_eq, Option.ne_none_iff_exists']
      simp only [build_eq_error_iff]
    rw [refused, Accepts]
    simp only [not_forall, not_and_or, not_not, exists_prop]

/-- Two names for one subroutine, and a label behind the last instruction. -/
def spinCalls : List (Call Bullet.Kind Float32) :=
  [.push (.call "spin"), .push .stop, .label "turn", .label "spin",
    .append [.wait 3, .ret], .label "tail"]

theorem build_resolves_spinCalls :
    (∃ p, (after spinCalls).build = .ok p ∧ Resolves spinCalls p ∧
      p.labelListing = [("spin", 2), ("turn", 2), ("tail", 4)]) ∧
    ∃ before name, Declares (spinCalls ++ [.label "turn"]) before name ∧ Accepts before ∧
      Refuses before name (.duplicate "turn" 2 4) := by
  obtain ⟨-, -, resolves⟩ := build_resolves spinCalls
  obtain ⟨fails, -, -⟩ := build_resolves (spinCalls ++ [.label "turn"])
  refine ⟨⟨_, rfl, resolves _ rfl, ?_⟩, (fails _).mp rfl⟩
  show [("turn", 2), ("spin", 2), ("tail", 4)].mergeSort _ = _
  simp [List.mergeSort, List.MergeSort.Internal.splitInTwo]

end Builder

end Barrage
