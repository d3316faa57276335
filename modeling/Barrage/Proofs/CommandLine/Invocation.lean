/-
What an invocation leaves behind.

Words are refused in a fixed order: flags that make no sense, an enemy that there is not, a
trace file that cannot be made.  Only the last of these concerns a file, and where the file
is refused there is none.  So nothing is ever left behind that would have to be taken
back; what an outcome says of its file is all that is on the disk, which is `leaves_eq`,
and a run that has been begun comes to its end, because no run over the built-in patterns
crashes.
-/
import Barrage.CommandLine.Invocation
import Barrage.Proofs.CommandLine.Flags
import Barrage.Proofs.Script.Registry
import Barrage.Proofs.Stage.Budget
import Barrage.Proofs.Stage.Crash

namespace Barrage.CommandLine

/-! ### Disks

A disk is the least that files are good for: to be made empty, and to be filled.
Whether a path can be made is up to `refusal`, which also gives the reason.  Making a
file puts an empty one in the place of any other of that name, as a run does that traces
to a file which is there already.
-/

/-- The files that have been made, with their lines. -/
abbrev Disk := List (String × List String)

namespace Disk

/-- An empty file, in the place of one with this name. -/
def make (path : String) (d : Disk) : Disk :=
  d.filter (fun file => file.1 ≠ path) ++ [(path, [])]

def fill (path : String) (lines : List String) (d : Disk) : Disk :=
  d.map fun file => if file.1 = path then (path, lines) else file

/-- A disk as a file system.  Files that are refused are not made, and what is written to the others
is there. -/
def files (refusal : String → Option String) : Files (StateM Disk) where
  create path :=
    match refusal path with
    | some why => return some why
    | none => do
      modify (make path)
      return none
  fill path lines := modify (fill path lines)

end Disk

/-- What an invocation comes to where there is no file, and the files that are there afterwards. -/
def leaves (refusal : String → Option String) (words : List String) :
    Except Crash Outcome × Disk :=
  (invoke (Disk.files refusal) words).run []

variable {refusal : String → Option String} {words : List String} {o : Outcome} {j : Job}

theorem Disk.fill_make (path : String) (lines : List String) :
    fill path lines (make path []) = [(path, lines)] := by
  simp [fill, make]

/-! ### Where the files come from

What an invocation prints is decided without any disk, by `perform`, and so is the file
it wants to have written.  On a disk the file has to be made before the run and is
filled after it, so a run that crashed would leave an empty one; an outcome says that it
did not.
-/

theorem Job.run_eq_ok (h : j.run = .ok o) : ∃ summary seen,
    j.stage.run j.options.ticks = .ok (summary, seen) ∧ o.code = 0 ∧
      o.stdout = report j.enemy summary ∧
      o.file = j.options.trace.map fun path => (path, seen.map Stage.Snapshot.line) := by
  obtain ⟨⟨summary, seen⟩, hrun, hdone⟩ := bind_eq_ok.mp h
  cases hdone
  exact ⟨summary, seen, hrun, rfl, rfl, rfl⟩

/-- Only a run makes a file. -/
theorem file_of_answer (h : plan words = .answer o) : o.file = none := by
  obtain ⟨c, hc⟩ : ∃ c, Catalog.builtIn = .ok c := ⟨_, rfl⟩
  unfold plan at h
  simp only [withCatalog, hc] at h
  split at h
  · cases h
    rfl
  · cases h
    rfl
  · cases h
    unfold check
    split <;> rfl
  · unfold planRun at h
    split at h
    · cases h
      rfl
    · split at h
      · cases h
        rfl
      · dsimp only at h
        split at h <;> cases h
        rfl
  · split at h <;> cases h <;> rfl

/-- A run takes place unless its trace file cannot be made. -/
theorem Job.perform_cases (refusal : String → Option String) (j : Job) :
    (∃ path why, j.options.trace = some path ∧ refusal path = some why ∧
      j.perform refusal = .ok (.cannotWrite path why)) ∨
    (∀ path, j.options.trace = some path → refusal path = none) ∧ j.perform refusal = j.run := by
  unfold perform
  cases j.options.trace with
  | none => exact .inr ⟨by simp, rfl⟩
  | some path =>
      rw [Option.bind_some]
      cases hwhy : refusal path with
      | some why => exact .inl ⟨path, why, rfl, hwhy, rfl⟩
      | none => exact .inr ⟨by simpa using hwhy, rfl⟩

/-- The file that a run tells of is on the disk afterwards. -/
theorem execute_eq (h : j.perform refusal = .ok o) :
    (j.execute (Disk.files refusal)).run [] = (.ok o, o.file.toList) := by
  unfold Job.execute
  rcases j.perform_cases refusal with ⟨path, why, htrace, hwhy, hperform⟩ | ⟨free, hperform⟩
  · cases hperform.symm.trans h
    simp only [htrace, Disk.files, hwhy]
    rfl
  · have hrun := hperform.symm.trans h
    obtain ⟨summary, seen, -, -, -, hfile⟩ := Job.run_eq_ok hrun
    cases htrace : j.options.trace with
    | none =>
        rw [htrace] at hfile
        rw [hrun, hfile]
        rfl
    | some path =>
        rw [htrace] at hfile
        simp only [Disk.files, free path htrace, hrun, hfile, bind_pure_comp]
        exact congrArg (_, ·) (Disk.fill_make path _)

/-- The file that an outcome tells of is on the disk, and no other one. -/
theorem leaves_eq (h : perform refusal words = .ok o) :
    leaves refusal words = (.ok o, o.file.toList) := by
  unfold perform at h
  unfold leaves invoke
  cases hplan : plan words with
  | answer outcome =>
      rw [hplan] at h
      cases h
      rw [file_of_answer hplan]
      rfl
  | run job =>
      rw [hplan] at h
      exact execute_eq h

/-! ### Exit codes

Whatever is not a run is an answer that is known at once.  The answer to a check depends
on the built-in catalog, with which nothing is wrong.
-/

/-- The exit code says whether an invocation has failed, and one that has leaves nothing behind. -/
structure Clean (o : Outcome) (made : Disk) : Prop where
  code : o.code = 0 ∨ o.code = 1 ∨ o.code = 3
  failed : o.code ≠ 0 → o.stdout = [] ∧ made = []

theorem clean_success (lines : List String) : Clean (.success lines) [] :=
  ⟨.inl rfl, fun failed => absurd rfl failed⟩

theorem clean_notice {code : UInt8} (h : code = 0 ∨ code = 1 ∨ code = 3) (lines : List String) :
    Clean (.notice code lines) [] :=
  ⟨h, fun _ => ⟨rfl, rfl⟩⟩

/-- Nothing is wrong with the built-in catalog. -/
theorem builtIn_problems : Catalog.builtIn.map Catalog.problems = .ok [] := by rfl

/-- All that does not run an enemy is answered at once. -/
theorem exists_answer (other : ¬ ∃ enemy flags, words = "run" :: enemy :: flags) :
    ∃ o, plan words = .answer o ∧ Clean o [] := by
  obtain ⟨c, hc⟩ : ∃ c, Catalog.builtIn = .ok c := ⟨_, rfl⟩
  unfold plan
  simp only [withCatalog, hc]
  split
  · exact ⟨_, rfl, clean_notice (by decide) _⟩
  · exact ⟨_, rfl, clean_success _⟩
  · refine ⟨_, rfl, ?_⟩
    have sound := builtIn_problems
    rw [hc] at sound
    rw [check, Except.ok.inj sound]
    exact clean_success _
  · rename_i words
    cases words with
    | nil => exact ⟨_, rfl, clean_notice (by decide) _⟩
    | cons enemy flags => exact absurd ⟨enemy, flags, rfl⟩ other
  · split
    · exact ⟨_, rfl, clean_notice (by decide) _⟩
    · exact ⟨_, rfl, clean_notice (by decide) _⟩

/-! ### What a run comes to

`Attempt` lists the four ways in which a run can end, in the order in which they are
tested, and `exists_attempt` goes through these tests.  The statement for readers is
`Attempted`: it is about the words, with the settings read off the flags that they
spell.
-/

/-- The enemy is one of the built-in patterns. -/
def Known (enemy : String) : Prop :=
  ∃ c, Catalog.builtIn = .ok c ∧ c.install.enemies.contains enemy = true

/-- The lines are numbered by ticks, from 1 to `n`. -/
structure Numbered (n : ℕ) (lines : List String) : Prop where
  length : lines.length = n
  starts : ∀ i (_ : i < lines.length), ∃ rest, lines[i] = s!"tick={i + 1} " ++ rest

/-- The run has printed how many ticks it took, and has traced each of them. -/
def Completed (options : RunOptions) (o : Outcome) : Prop :=
  ∃ n lines, o.stdout[1]? = some s!"ticks:        {n}" ∧ Numbered n lines ∧
    o.file = options.trace.map fun path => (path, lines)

/-- What an attempt to run an enemy comes to: what is wrong first decides. -/
inductive Attempt (refusal : String → Option String) (enemy : String) (words : List String) :
    Outcome → Prop
  | malformed {e : FlagError} (parsed : parseFlags words = .error e) :
      Attempt refusal enemy words (.notice 1 [e.message])
  | unknown {options : RunOptions} (parsed : parseFlags words = .ok options)
      (unknown : ¬ Known enemy) (lines : List String) :
      Attempt refusal enemy words (.notice 3 lines)
  | refused {options : RunOptions} (parsed : parseFlags words = .ok options)
      (known : Known enemy) {path why : String} (traced : options.trace = some path)
      (refused : refusal path = some why) : Attempt refusal enemy words (.cannotWrite path why)
  | completed {options : RunOptions} (parsed : parseFlags words = .ok options)
      (known : Known enemy) (free : ∀ path, options.trace = some path → refusal path = none)
      {o : Outcome} (code : o.code = 0) (completed : Completed options o) :
      Attempt refusal enemy words o

/-- The line of a snapshot begins with its tick. -/
theorem line_starts (s : Stage.Snapshot) : ∃ rest, s.line = s!"tick={s.tick} " ++ rest := by
  have starts : ∀ enemy : String, ∃ rest,
      s!"tick={s.tick} enemy={enemy} shots={s.shots} bullets={s.bullets}" =
        s!"tick={s.tick} " ++ rest := by
    intro enemy
    refine ⟨s!"enemy={enemy} shots={s.shots} bullets={s.bullets}", ?_⟩
    have blank : toString " enemy=" = toString " " ++ toString "enemy=" := rfl
    simp only [blank, String.append_assoc]
  exact starts _

theorem numbered_lines {seen : List Stage.Snapshot} {n : ℕ}
    (hseen : seen.map Stage.Snapshot.tick = List.range' 1 n) :
    Numbered n (seen.map Stage.Snapshot.line) := by
  have length : seen.length = n := by
    rw [← List.length_map (f := Stage.Snapshot.tick), hseen, List.length_range']
  refine ⟨by rw [List.length_map, length], ?_⟩
  intro i hi
  rw [List.length_map] at hi
  have tick := List.getElem_of_eq hseen (by rwa [List.length_map])
  rw [List.getElem_map, List.getElem_range', one_mul, add_comm] at tick
  rw [List.getElem_map, ← tick]
  exact line_starts seen[i]

theorem exists_ofEnemy?_iff {setting : Setting Float32} {seed : UInt64} {enemy : String} :
    (∃ entered, Stage.ofEnemy? setting seed enemy = some entered) ↔
      setting.library.enemies.contains enemy = true := by
  rw [Registry.contains_eq, ← Option.isSome_iff_exists]
  unfold Stage.ofEnemy? Registry.cursor?
  cases setting.library.enemies.get? enemy <;> simp

theorem completed_of_run {c : Catalog Float32} (hc : Catalog.builtIn = .ok c)
    {options : RunOptions} {enemy : String} {stage : Stage}
    (henters : Stage.ofEnemy? (setting c.install options.player) options.seed enemy = some stage) :
    ∃ o, Job.run { enemy, options, stage } = .ok o ∧ o.code = 0 ∧ Completed options o := by
  obtain ⟨summary, seen, hrun⟩ := Stage.builtIn_completes hc rfl henters options.ticks
  refine ⟨_, bind_eq_ok.mpr ⟨_, hrun, rfl⟩, rfl, summary.ticks, _, rfl, ?_, rfl⟩
  exact numbered_lines (Stage.numbered_of_run henters hrun)

theorem exists_attempt (refusal : String → Option String) (enemy : String) (words : List String) :
    ∃ o, perform refusal ("run" :: enemy :: words) = .ok o ∧ Attempt refusal enemy words o := by
  obtain ⟨c, hc⟩ : ∃ c, Catalog.builtIn = .ok c := ⟨_, rfl⟩
  cases parsed : parseFlags words with
  | error e => exact ⟨_, perform_of_parseFlags_error parsed refusal enemy, .malformed parsed⟩
  | ok options =>
      have known_iff : Known enemy ↔ ∃ stage,
          Stage.ofEnemy? (setting c.install options.player) options.seed enemy = some stage := by
        rw [exists_ofEnemy?_iff]
        constructor
        · rintro ⟨c', hc', known⟩
          cases hc.symm.trans hc'
          exact known
        · intro known
          exact ⟨c, hc, known⟩
      simp only [perform, plan, withCatalog, hc, planRun, parsed]
      cases henters : Stage.ofEnemy? (setting c.install options.player) options.seed enemy with
      | none =>
          have unknown : ¬ Known enemy := by
            rw [known_iff, henters]
            simp
          exact ⟨_, rfl, .unknown parsed unknown _⟩
      | some stage =>
          have known := known_iff.mpr ⟨stage, henters⟩
          obtain ⟨o, hrun, code, completed⟩ := completed_of_run hc henters
          rcases Job.perform_cases refusal { enemy, options, stage } with
            ⟨path, why, traced, refused, hperform⟩ | ⟨free, hperform⟩
          · exact ⟨_, hperform, .refused parsed known traced refused⟩
          · exact ⟨o, hperform.trans hrun, .completed parsed known free code completed⟩

theorem Spell.parseFlags_eq {flags : List Flag} (spell : Spell flags words) :
    parseFlags words = .ok (settings flags) := by
  rw [parseFlags, spell.readFlags, foldl_set_default]

/-- What holds of an attempt to run an enemy, whatever the flags are. -/
structure Attempted (refusal : String → Option String) (enemy : String) (words : List String)
    (o : Outcome) (made : Disk) : Prop where
  malformed : (¬ ∃ flags, Spell flags words) → o.code = 1
  unknown : ∀ flags, Spell flags words → (o.code = 3 ↔ ¬ Known enemy)
  refused : ∀ flags, Spell flags words → (o.code = 1 ↔
    Known enemy ∧ ∃ path why, (settings flags).trace = some path ∧ refusal path = some why)
  /-- The number of ticks is printed, and the trace is the only file and has a line for each. -/
  completed : ∀ flags, Spell flags words → o.code = 0 → ∃ n lines,
    o.stdout[1]? = some s!"ticks:        {n}" ∧ Numbered n lines ∧
      made = ((settings flags).trace.map fun path => (path, lines)).toList

variable {enemy : String}

theorem Attempt.clean (h : Attempt refusal enemy words o) : Clean o o.file.toList := by
  cases h with
  | malformed _ => exact clean_notice (by decide) _
  | unknown _ _ lines => exact clean_notice (by decide) lines
  | refused _ _ _ _ => exact clean_notice (by decide) _
  | completed _ _ _ code _ => exact ⟨.inl code, fun failed => absurd code failed⟩

theorem Attempt.attempted (h : Attempt refusal enemy words o) :
    Attempted refusal enemy words o o.file.toList := by
  have same : ∀ {options}, parseFlags words = .ok options →
      (∃ flags, Spell flags words) ∧ ∀ flags, Spell flags words → options = settings flags := by
    intro options parsed
    refine ⟨exists_spell parsed, ?_⟩
    intro flags spell
    exact Except.ok.inj (parsed.symm.trans spell.parseFlags_eq)
  cases h with
  | malformed parsed =>
      have unspelled : ∀ flags, ¬ Spell flags words := by
        intro flags spell
        cases parsed.symm.trans spell.parseFlags_eq
      exact ⟨fun _ => rfl, fun flags spell => absurd spell (unspelled flags),
        fun flags spell => absurd spell (unspelled flags),
        fun flags spell => absurd spell (unspelled flags)⟩
  | unknown parsed unknown lines =>
      obtain ⟨spelled, same⟩ := same parsed
      refine ⟨fun unspelled => absurd spelled unspelled, ?_, ?_, ?_⟩
      · intro flags _
        exact iff_of_true rfl unknown
      · intro flags _
        exact iff_of_false (show (3 : UInt8) ≠ 1 by decide) fun known => unknown known.1
      · intro flags _ code
        exact absurd code (show (3 : UInt8) ≠ 0 by decide)
  | @refused options parsed known path why traced refused =>
      obtain ⟨spelled, same⟩ := same parsed
      refine ⟨fun unspelled => absurd spelled unspelled, ?_, ?_, ?_⟩
      · intro flags _
        exact iff_of_false (show (1 : UInt8) ≠ 3 by decide) fun unknown => unknown known
      · intro flags spell
        exact iff_of_true rfl ⟨known, path, why, same flags spell ▸ traced, refused⟩
      · intro flags _ code
        exact absurd code (show (1 : UInt8) ≠ 0 by decide)
  | @completed options parsed known free _ code completed =>
      obtain ⟨spelled, same⟩ := same parsed
      obtain ⟨n, lines, printed, numbered, hfile⟩ := completed
      refine ⟨fun unspelled => absurd spelled unspelled, ?_, ?_, ?_⟩
      · intro flags _
        rw [code]
        exact iff_of_false (by decide) fun unknown => unknown known
      · intro flags spell
        rw [code]
        refine iff_of_false (by decide) ?_
        rintro ⟨-, path, why, traced, refused⟩
        cases refused.symm.trans (free path ((same flags spell) ▸ traced))
      · intro flags spell _
        exact ⟨n, lines, printed, numbered, by rw [hfile, same flags spell]⟩

/--
**A failed invocation leaves nothing behind.**  Whatever the words, as far as they are text,
and whichever files cannot be made, an invocation where there is no file comes to an exit
code of 0, 1 or 3, and unless that is 0 nothing has been printed to the output proper and no
file has been made.  Flags that make no sense are found before an enemy that there is not,
and this before a file that cannot be made.  A run that has succeeded has made the file of
its last `--trace` only, with a line for each of the ticks that it has printed.
-/
theorem invocation_leavesNothing (refusal : String → Option String) (words : List String) :
    ∃ o made, leaves refusal words = (.ok o, made) ∧ Clean o made ∧
      (words.head? ≠ some "run" → made = []) ∧
      ∀ enemy flags, words = "run" :: enemy :: flags →
        Attempted refusal enemy flags o made := by
  by_cases run : ∃ enemy flags, words = "run" :: enemy :: flags
  · obtain ⟨enemy, flags, rfl⟩ := run
    obtain ⟨o, hperform, attempt⟩ := exists_attempt refusal enemy flags
    refine ⟨o, o.file.toList, leaves_eq hperform, attempt.clean, fun other => absurd rfl other, ?_⟩
    intro enemy' flags' same
    cases same
    exact attempt.attempted
  · obtain ⟨o, hplan, clean⟩ := exists_answer run
    have hperform : perform refusal words = .ok o := by rw [perform, hplan]
    refine ⟨o, [], ?_, clean, fun _ => rfl, fun enemy flags same => absurd ⟨enemy, flags, same⟩ run⟩
    rw [leaves_eq hperform, file_of_answer hplan]
    rfl

/-- Of two trace files the last is made, if it can be. -/
theorem invocation_leavesNothing_traced :
    let words := ["run", "fairy_aimed", "--trace", "first", "--trace", "last", "--ticks", "2"]
    (∃ o n lines, leaves (fun _ => none) words = (.ok o, [("last", lines)]) ∧ o.code = 0 ∧
      o.stdout[1]? = some s!"ticks:        {n}" ∧ Numbered n lines) ∧
    ∃ o, leaves some words = (.ok o, []) ∧ o.code = 1 := by
  intro words
  have two : Decimal "2" 2 ∧ 2 ≤ 2 := wholeNumber?_eq_some_iff.mp rfl
  have spell : Spell [.trace "first", .trace "last", .ticks 2]
      ["--trace", "first", "--trace", "last", "--ticks", "2"] :=
    .cons (.trace _) (.cons (.trace _) (.cons (.ticks two.1 (by decide)) .nil))
  have known : Known "fairy_aimed" := ⟨_, rfl, rfl⟩
  constructor
  · obtain ⟨o, made, left, clean, -, attempted⟩ := invocation_leavesNothing (fun _ => none) words
    have attempted := attempted _ _ rfl
    have code : o.code = 0 := by
      rcases clean.code with code | code | code
      · exact code
      · obtain ⟨-, path, why, -, refused⟩ := (attempted.refused _ spell).mp code
        cases refused
      · exact absurd known ((attempted.unknown _ spell).mp code)
    obtain ⟨n, lines, printed, numbered, rfl⟩ := attempted.completed _ spell code
    exact ⟨o, n, lines, left, code, printed, numbered⟩
  · obtain ⟨o, made, left, clean, -, attempted⟩ := invocation_leavesNothing some words
    have code : o.code = 1 :=
      ((attempted _ _ rfl).refused _ spell).mpr ⟨known, "last", "last", rfl, rfl⟩
    have failed : o.code ≠ 0 := by
      rw [code]
      decide
    obtain ⟨-, rfl⟩ := clean.failed failed
    exact ⟨o, left, code⟩

end Barrage.CommandLine
