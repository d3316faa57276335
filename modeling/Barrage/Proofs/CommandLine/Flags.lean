/-
The words that make up the flags of a run.

Reading goes from left to right and never back, and the grammar is one of words in a row:
each flag is spelled by one word or by two, and what looks like a flag is a value just
behind a flag that takes one.  So the words that can be read are those that some flags
spell, in their order.

What has been read is folded into the settings flag by flag, while the meaning of the
flags looks at each setting alone: it has the value of the last flag that sets it.
-/
import Mathlib.Data.List.Induction
import Mathlib.Data.Nat.Digits.Defs
import Barrage.CommandLine.Command

namespace Barrage.CommandLine

/-! ### Whole numbers

A number is read digit by digit from the highest on, and the limit is looked at in the
end.  Leading zeros and a plus sign are allowed; a minus sign, blanks and an empty word
are not.
-/

/-- The word is a whole number: digits, the highest first, and maybe a plus sign in front. -/
inductive Decimal : String → Nat → Prop
  | digits {word : String} {digits : List Char} (nonempty : digits ≠ [])
      (ascii : ∀ c ∈ digits, c.isDigit = true)
      (spelled : word.toList = digits ∨ word.toList = '+' :: digits) :
      Decimal word (.ofDigits 10 (digits.reverse.map fun c => c.toNat - '0'.toNat))

variable {word : String} {digits : List Char} {limit n : Nat}

theorem valueOf_eq (digits : List Char) :
    valueOf digits = .ofDigits 10 (digits.reverse.map fun c => c.toNat - '0'.toNat) := by
  rw [valueOf, Nat.ofDigits_eq_foldr, List.foldr_map, List.foldr_reverse]
  simp only [Nat.cast_id, add_comm]

/-- A plus sign is no digit, so it is never taken for the first of them. -/
theorem digits?_eq_some_iff : digits? word = some digits ↔ digits ≠ [] ∧
    (∀ c ∈ digits, c.isDigit = true) ∧ (word.toList = digits ∨ word.toList = '+' :: digits) := by
  simp only [digits?, Option.ite_none_right_eq_some, Option.some.injEq, List.all_eq_true]
  constructor
  · rintro ⟨⟨nonempty, ascii⟩, rfl⟩
    refine ⟨nonempty, ascii, ?_⟩
    split
    · exact .inr ‹_›
    · exact .inl rfl
  · rintro ⟨nonempty, ascii, plain | signed⟩
    · split
      · rename_i rest hplus
        rw [hplus] at plain
        subst plain
        exact absurd (ascii '+' (by simp)) (by decide)
      · simp_all
    · simp_all

theorem wholeNumber?_eq_some_iff :
    wholeNumber? limit word = some n ↔ Decimal word n ∧ n ≤ limit := by
  simp only [wholeNumber?, Option.bind_eq_some_iff, digits?_eq_some_iff,
    Option.ite_none_right_eq_some, Option.some.injEq, valueOf_eq]
  constructor
  · rintro ⟨digits, ⟨nonempty, ascii, spelled⟩, bound, rfl⟩
    exact ⟨.digits nonempty ascii spelled, bound⟩
  · rintro ⟨⟨nonempty, ascii, spelled⟩, bound⟩
    exact ⟨_, ⟨nonempty, ascii, spelled⟩, bound, rfl⟩

theorem readNumber_eq_ok_iff (flag : String) :
    readNumber limit flag word = .ok n ↔ Decimal word n ∧ n ≤ limit := by
  rw [← wholeNumber?_eq_some_iff, readNumber]
  cases wholeNumber? limit word <;> simp

/-! ### The grammar

Each flag has just one form, so the words determine the flags and the grammar need not
say how to choose.  It does not mention reading at all: a value is whatever stands
behind a flag that takes one.
-/

/-- What a run can be told. -/
inductive Flag where
  | ticks (n : Nat)
  | seed (n : Nat)
  | trace (path : String)
  | noPlayer
  deriving DecidableEq

/-- The words that a flag is spelled with. -/
inductive Flag.SpelledBy : Flag → List String → Prop
  | ticks {n : Nat} {value : String} (number : Decimal value n) (bound : n < UInt32.size) :
      SpelledBy (.ticks n) ["--ticks", value]
  | seed {n : Nat} {value : String} (number : Decimal value n) (bound : n < UInt64.size) :
      SpelledBy (.seed n) ["--seed", value]
  | trace (path : String) : SpelledBy (.trace path) ["--trace", path]
  | noPlayer : SpelledBy .noPlayer ["--no-player"]

/-- The words that some flags are spelled with, one after the other. -/
inductive Spell : List Flag → List String → Prop
  | nil : Spell [] []
  | cons {flag : Flag} {flags : List Flag} {group words : List String}
      (first : flag.SpelledBy group) (rest : Spell flags words) :
      Spell (flag :: flags) (group ++ words)

namespace Flag

def ticks? : Flag → Option Nat
  | ticks n => some n
  | _ => none

def seed? : Flag → Option Nat
  | seed n => some n
  | _ => none

def trace? : Flag → Option String
  | trace path => some path
  | _ => none

end Flag

/-- What a run is told: for each setting, the last word on it. -/
def settings (flags : List Flag) : RunOptions where
  ticks := (flags.filterMap Flag.ticks?).getLast?.getD 600
  seed := .ofNat ((flags.filterMap Flag.seed?).getLast?.getD 0)
  trace := (flags.filterMap Flag.trace?).getLast?
  player := !flags.contains .noPlayer

/-! ### Reading

Reading is a recursion on the words, spelling an induction on the flags.
`Spell.readFlags` goes from flags to words by the one and `exists_spell` back by the
other, and neither needs the settings that are already there.
-/

/-- The settings after one more flag. -/
def RunOptions.set (o : RunOptions) : Flag → RunOptions
  | .ticks n => { o with ticks := n }
  | .seed n => { o with seed := .ofNat n }
  | .trace path => { o with trace := some path }
  | .noPlayer => { o with player := false }

variable {flags : List Flag} {words : List String} {o o' : RunOptions}

theorem foldl_set_default (flags : List Flag) : flags.foldl .set .default = settings flags := by
  induction flags using List.reverseRecOn with
  | nil => rfl
  | append_singleton flags flag ih =>
      rw [List.foldl_append, ih]
      cases flag <;> simp [RunOptions.set, settings, List.filterMap_append, Flag.ticks?,
        Flag.seed?, Flag.trace?]

/-- Flags that are spelled out are set in their order, whatever has been set before. -/
theorem Spell.readFlags (h : Spell flags words) (o : RunOptions) :
    readFlags words o = .ok (flags.foldl .set o) := by
  induction h generalizing o with
  | nil => rfl
  | cons first _ ih =>
      rw [List.foldl_cons, ← ih]
      cases first with
      | ticks number bound =>
          have read := (readNumber_eq_ok_iff "--ticks").mpr
            ⟨number, Nat.le_sub_one_of_lt bound⟩
          rw [List.cons_append, List.cons_append, CommandLine.readFlags, read]
          rfl
      | seed number bound =>
          have read := (readNumber_eq_ok_iff "--seed").mpr
            ⟨number, Nat.le_sub_one_of_lt bound⟩
          rw [List.cons_append, List.cons_append, CommandLine.readFlags, read]
          rfl
      | trace path => rfl
      | noPlayer => rfl

/-- Each step of reading that goes on has read one flag. -/
theorem exists_spell (h : readFlags words o = .ok o') : ∃ flags, Spell flags words := by
  fun_induction readFlags words o with
  | case1 => exact ⟨[], .nil⟩
  | case2 rest o ih =>
      obtain ⟨flags, spell⟩ := ih h
      exact ⟨_, .cons .noPlayer spell⟩
  | case3 value rest o n read ih =>
      obtain ⟨flags, spell⟩ := ih h
      obtain ⟨number, bound⟩ := (readNumber_eq_ok_iff _).mp read
      exact ⟨_, .cons (.ticks number (Nat.lt_of_le_pred (by decide) bound)) spell⟩
  | case5 value rest o n read ih =>
      obtain ⟨flags, spell⟩ := ih h
      obtain ⟨number, bound⟩ := (readNumber_eq_ok_iff _).mp read
      exact ⟨_, .cons (.seed number (Nat.lt_of_le_pred (by decide) bound)) spell⟩
  | case7 path rest o ih =>
      obtain ⟨flags, spell⟩ := ih h
      exact ⟨_, .cons (.trace path) spell⟩
  | case4 | case6 | case8 | case9 | case10 => cases h

theorem perform_of_parseFlags_error {e : FlagError} (h : parseFlags words = .error e)
    (refusal : String → Option String) (enemy : String) :
    perform refusal ("run" :: enemy :: words) = .ok (.notice 1 [e.message]) := by
  obtain ⟨c, hc⟩ : ∃ c, Catalog.builtIn = .ok c := ⟨_, rfl⟩
  have refused : plan ("run" :: enemy :: words) = .answer (.notice 1 [e.message]) := by
    simp only [plan, withCatalog, hc, planRun, h]
  rw [perform, refused]

/--
**The flags of a run have one grammar.**  Words are read just if they spell some flags in a
row: a number of ticks below 2^32, a seed below 2^64, a trace file with any name, or the
absence of a player.  Then each setting is what the last flag for it says; without any,
there are 600 ticks, the seed is 0, nothing is traced and there is a player.  With all
other words nothing is run, and the exit code is 1.
-/
theorem parseFlags_grammar (words : List String) :
    ((∃ o, parseFlags words = .ok o) ↔ ∃ flags, Spell flags words) ∧
    (∀ flags, Spell flags words → parseFlags words = .ok (settings flags)) ∧
    ((¬ ∃ flags, Spell flags words) → ∃ e, parseFlags words = .error e ∧ ∀ refusal enemy,
      perform refusal ("run" :: enemy :: words) = .ok (.notice 1 [e.message])) := by
  have reads : ∀ flags, Spell flags words → parseFlags words = .ok (settings flags) := by
    intro flags spell
    rw [parseFlags, spell.readFlags, foldl_set_default]
  refine ⟨⟨?_, ?_⟩, reads, ?_⟩
  · rintro ⟨o, h⟩
    exact exists_spell h
  · rintro ⟨flags, spell⟩
    exact ⟨_, reads flags spell⟩
  · intro unspelled
    cases h : parseFlags words with
    | ok o => exact absurd (exists_spell h) unspelled
    | error e => exact ⟨e, rfl, perform_of_parseFlags_error h⟩

/-- A value that looks like a flag is none, and a number may be as high as its limit. -/
theorem parseFlags_grammar_repeated :
    parseFlags ["--ticks", "+7", "--seed", "18446744073709551615", "--trace", "--no-player",
      "--ticks", "0012"] = .ok ⟨12, .ofNat (2 ^ 64 - 1), some "--no-player", true⟩ ∧
    perform (fun _ => none) ["run", "spinner", "--no-player", "--ticks", "4294967296"] =
      .ok (.notice 1 ["error: invalid value '4294967296' for --ticks"]) := by
  have spell : Spell
      [.ticks 7, .seed (2 ^ 64 - 1), .trace "--no-player", .ticks 12]
      ["--ticks", "+7", "--seed", "18446744073709551615", "--trace", "--no-player",
        "--ticks", "0012"] := by
    have number : ∀ {n word}, wholeNumber? (2 ^ 64 - 1) word = some n → Decimal word n :=
      fun h => (wholeNumber?_eq_some_iff.mp h).1
    refine .cons (.ticks (number rfl) ?_) (.cons (.seed (number rfl) ?_)
      (.cons (.trace _) (.cons (.ticks (number rfl) ?_) .nil)))
    all_goals decide
  have unspelled : ¬ ∃ flags, Spell flags ["--no-player", "--ticks", "4294967296"] := by
    rw [← (parseFlags_grammar _).1]
    rintro ⟨o, h⟩
    cases h
  obtain ⟨e, herror, refused⟩ := (parseFlags_grammar _).2.2 unspelled
  cases herror
  exact ⟨(parseFlags_grammar _).2.1 _ spell, refused _ _⟩

end Barrage.CommandLine
