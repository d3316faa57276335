/-
Where the blocks of a script are on its tape.

Three facts about a compiled script are enough to follow it.

  * The main block is at the start of the tape, and the end of the script behind it.
  * The label of a subroutine leads to its block, and a return is behind that.
  * A loop that is not entered goes to the position behind its end.  The scan for
    brackets finds that position because the brackets within a block are balanced:
    whatever is open before a block is open again behind it.
-/
import Barrage.Proofs.Script.Block
import Barrage.Proofs.Script.LoopScan

namespace Barrage

/-! ### The builder adds and never takes back

Both the instructions and the labels of a builder only grow at their ends.  So a
position that was right when something was appended stays right for all that is built
later, and it is enough to look at each subroutine at the moment when it is placed.
-/

namespace Builder

variable {κ α : Type}

/-- What has been built before is kept. -/
structure Extends (b b' : Builder κ α) : Prop where
  error : b'.error = none → b.error = none
  code : b.code.toList <+: b'.code.toList
  labels : ∀ name k, b.labels.lookup name = some k → b'.labels.lookup name = some k

variable {b b' b'' : Builder κ α} {name : String}

theorem Extends.refl (b : Builder κ α) : b.Extends b :=
  ⟨id, List.prefix_rfl, fun _ _ h => h⟩

theorem Extends.trans (h : b.Extends b') (h' : b'.Extends b'') : b.Extends b'' :=
  ⟨fun herror => h.error (h'.error herror), h.code.trans h'.code,
    fun name k hk => h'.labels name k (h.labels name k hk)⟩

theorem append_extends (b : Builder κ α) (code : List (Instruction κ α)) :
    b.Extends (b.append code) :=
  ⟨id, by simp [append], fun _ _ h => h⟩

/-- A label is accepted when no other has been refused and it is new and not empty. -/
theorem label_eq (herror : b.error = none) (hname : name ≠ "")
    (hnew : b.labels.lookup name = none) : (b.label name).error = none ∧
      (b.label name).code = b.code ∧ (b.label name).labels = b.labels ++ [(name, b.code.size)] := by
  unfold label
  simp only [herror, Option.isSome_none, Bool.false_eq_true, if_false]
  rw [if_neg (by simpa using hname)]
  split
  · rename_i first hfirst
    exact absurd (hnew.symm.trans hfirst) (by simp)
  · exact ⟨rfl, rfl, rfl⟩

/-- A label that is not refused is accepted. -/
theorem label_accepted (h : (b.label name).error = none) :
    b.error = none ∧ name ≠ "" ∧ b.labels.lookup name = none := by
  simp only [label] at h
  split at h
  · rename_i hsome
    exact absurd hsome (by simp [h])
  · rename_i hnone
    refine ⟨by simpa using hnone, ?_⟩
    split at h
    · exact absurd h (by simp)
    · rename_i hname
      refine ⟨by simpa using hname, ?_⟩
      split at h
      · exact absurd h (by simp)
      · assumption

theorem label_extends (b : Builder κ α) (name : String) : b.Extends (b.label name) := by
  simp only [label]
  split
  · exact .refl b
  · split
    · exact ⟨fun h => (by cases h), List.prefix_rfl, fun _ _ h => h⟩
    · split
      · exact ⟨fun h => (by cases h), List.prefix_rfl, fun _ _ h => h⟩
      · refine ⟨id, List.prefix_rfl, fun other k hk => ?_⟩
        rw [List.lookup_append, hk]
        rfl

end Builder

variable {κ α : Type} [Vocabulary κ] [Scalar α]

/-! ### Stretches of a tape

`p.At k code` is how proofs about a compiled script hold on to a part of the tape.  It
goes along with the structure of a block: the head of a stretch is the instruction at
`k`, and the two halves of a stretch are stretches.
-/

/-- From position `k` on the tape has these instructions. -/
def Program.At (p : Program κ α) (k : Nat) (code : List (Instruction κ α)) : Prop :=
  code <+: p.code.toList.drop k

namespace Program

variable {p : Program κ α} {k : Nat} {i : Instruction κ α} {first second : List (Instruction κ α)}

theorem At.get? (h : p.At k (i :: second)) : p.get? k = some i := by
  obtain ⟨after, hafter⟩ := h
  have hhead : (p.code.toList.drop k)[0]? = some i := by rw [← hafter]; rfl
  rw [List.getElem?_drop, Nat.add_zero, Array.getElem?_toList] at hhead
  exact hhead

theorem At.left (h : p.At k (first ++ second)) : p.At k first :=
  (List.prefix_append first second).trans h

theorem At.right (h : p.At k (first ++ second)) : p.At (k + first.length) second := by
  obtain ⟨after, hafter⟩ := h
  refine ⟨after, ?_⟩
  rw [← List.drop_drop, ← hafter, List.append_assoc, List.drop_left]

theorem At.tail (h : p.At k (i :: second)) : p.At (k + 1) second := by
  have happend : p.At k ([i] ++ second) := h
  exact happend.right

theorem get?_of_drop (h : p.code.toList.drop k = i :: rest) :
    p.get? k = some i ∧ p.code.toList.drop (k + 1) = rest := by
  have hat : p.At k (i :: rest) := ⟨[], by rw [h, List.append_nil]⟩
  refine ⟨hat.get?, ?_⟩
  rw [← List.drop_drop, h, List.drop_one, List.tail_cons]

theorem get?_of_drop_nil (h : p.code.toList.drop k = []) :
    p.get? k = none := by
  rw [List.drop_eq_nil_iff, Array.length_toList] at h
  exact Array.getElem?_eq_none h

end Program

/-! ### The brackets within a block are balanced

A block leaves the scan with the loops open that it found open.  This is what makes the
exit of a loop the position behind its own end: whatever loops stand in the body have
been closed when the scan comes to that end, so the innermost open one is the loop
itself.
-/

namespace Instruction

@[simp] theorem loopStart_flow (count : Int32) :
    (loopStart count : Instruction κ α).flow = .loopStart := Vocabulary.flow_loopStart
@[simp] theorem loopEnd_flow : (loopEnd : Instruction κ α).flow = .loopEnd :=
  Vocabulary.flow_loopEnd
@[simp] theorem call_flow (name : String) : (call name : Instruction κ α).flow = .call :=
  Vocabulary.flow_call
@[simp] theorem loopStart_count (count : Int32) :
    (loopStart count : Instruction κ α).count = count := rfl
@[simp] theorem call_label (name : String) : (call name : Instruction κ α).label = name := rfl
@[simp] theorem ret_flow : (ret : Instruction κ α).flow = .ret := Vocabulary.flow_ret
@[simp] theorem stop_flow : (stop : Instruction κ α).flow = .stop := Vocabulary.flow_stop

end Instruction

/-- What is open before a block is open behind it. -/
theorem Block.readAll_opened (block : Block κ α) (s : LoopScan) (k : Nat) :
    (s.readAll k (block.code.map Instruction.flow)).opened = s.opened := by
  induction block generalizing s k with
  | done => rfl
  | plain i h rest ih =>
      have hread : s.read k i.flow = s := by
        unfold LoopScan.read
        cases hf : i.flow <;> simp_all [Flow.isControl]
      rw [Block.code, List.map_cons, LoopScan.readAll_cons, hread, ih]
  | loop count body rest ihbody ihrest =>
      rw [Block.code, List.map_cons, List.map_append, List.map_cons, LoopScan.readAll_cons,
        LoopScan.readAll_append, LoopScan.readAll_cons, ihrest]
      simp [LoopScan.read, ihbody]
  | call name rest ih =>
      rw [Block.code, List.map_cons, LoopScan.readAll_cons, ih, Instruction.call_flow]
      rfl

/-- A loop goes to the position behind its end when it is not entered. -/
theorem Program.At.loopExit? {p : Program κ α} {k : Nat} {count : Int32} {body : Block κ α}
    {rest : List (Instruction κ α)}
    (h : p.At k (.loopStart count :: (body.code ++ .loopEnd :: rest))) :
    p.loopExit? k = some (k + body.code.length + 2) := by
  have hk : k < p.size := lt_size_of_get? h.get?
  obtain ⟨after, hafter⟩ := h
  have hlength : (p.flows.take k).length = k := by simp; omega
  -- the scan up to the loop, behind its start, behind its body, and behind its end
  let before := (LoopScan.initial p.size).readAll 0 (p.flows.take k)
  let inside := before.read k .loopStart
  let passed := inside.readAll (k + 1) (body.code.map Instruction.flow)
  let behind := passed.read (k + 1 + body.code.length) .loopEnd
  have hflows : p.flows = p.flows.take k ++ (.loopStart :: (body.code.map Instruction.flow ++
      .loopEnd :: (rest ++ after).map Instruction.flow)) := by
    conv => lhs; rw [← List.take_append_drop k p.flows]
    congr 1
    unfold flows
    rw [← List.map_drop, ← hafter]
    simp
  have hscan : loopScan p.flows = behind.readAll (k + 1 + body.code.length + 1)
      ((rest ++ after).map Instruction.flow) := by
    rw [LoopScan.loopScan_eq, length_flows, hflows, LoopScan.readAll_append, hlength, Nat.zero_add,
      LoopScan.readAll_cons, LoopScan.readAll_append, LoopScan.readAll_cons, List.length_map]
  have hopened : passed.opened = k :: before.opened := body.readAll_opened _ _
  have hbehind : behind = ⟨before.opened,
      passed.exits.setIfInBounds k (some (k + 1 + body.code.length + 1))⟩ := by
    simp only [behind, LoopScan.read, hopened]
  have hsize : k < passed.exits.size := by
    simpa [passed, inside, before, LoopScan.readAll_exits_size, LoopScan.read_exits_size,
      LoopScan.initial] using hk
  have hclosed : k ∉ behind.opened := by
    intro hmem
    rw [hbehind] at hmem
    have hwithin : before.Within (0 + (p.flows.take k).length) :=
      LoopScan.readAll_within _ (LoopScan.initial_within _)
    have := hwithin.opened k hmem
    omega
  have hposition : k + 1 + body.code.length + 1 = k + body.code.length + 2 := by omega
  rw [loopExit?_eq, hscan, LoopScan.readAll_exit?_of_not_mem _ hclosed (by omega), hbehind,
    hposition]
  simp [LoopScan.exit?, hsize]

/-! ### Every block is where it is looked for

`Compiled` is all that the simulation of a script by its tape uses of the compiler.  The
labels of subroutines have to be accepted one after the other for it, and they are,
since the names of a well-formed script are distinct and not empty.
-/

/-- The blocks of the script are on the tape where they are looked for. -/
structure BlockScript.Compiled (s : BlockScript κ α) (p : Program κ α) : Prop where
  main : p.At 0 (s.main.code ++ [.stop])
  subroutine : ∀ name block, s.block? name = some block →
    ∃ k, p.position? name = some k ∧ p.At k (block.code ++ [.ret])

namespace BlockScript

variable {s : BlockScript κ α} {b : Builder κ α} {p : Program κ α}
  {subroutines : List (String × Block κ α)}

theorem foldl_place_extends (subroutines : List (String × Block κ α)) (b : Builder κ α) :
    b.Extends (subroutines.foldl place b) := by
  induction subroutines generalizing b with
  | nil => exact .refl b
  | cons subroutine rest ih =>
      exact ((b.label_extends subroutine.1).trans (Builder.append_extends _ _)).trans (ih _)

/-- Every subroutine is found at its label. -/
theorem foldl_place_lookup {name : String} {block : Block κ α}
    (herror : (subroutines.foldl place b).error = none)
    (hname : subroutines.lookup name = some block) :
    ∃ k, (subroutines.foldl place b).labels.lookup name = some k ∧
      block.code ++ [.ret] <+: (subroutines.foldl place b).code.toList.drop k := by
  induction subroutines generalizing b with
  | nil => cases hname
  | cons subroutine rest ih =>
      obtain ⟨name', block'⟩ := subroutine
      rw [List.lookup_cons] at hname
      rw [List.foldl_cons] at herror ⊢
      by_cases heq : name = name'
      · simp only [heq, BEq.rfl, Option.some.injEq] at hname
        subst heq hname
        have extends' := foldl_place_extends rest (place b (name, block'))
        have hlabel : (b.label name).error = none := extends'.error herror
        obtain ⟨hb, hne, hnew⟩ := Builder.label_accepted hlabel
        obtain ⟨-, hcode, hlabels⟩ := Builder.label_eq hb hne hnew
        refine ⟨b.code.size, extends'.labels _ _ ?_, ?_⟩
        · show (b.label name).labels.lookup name = _
          rw [hlabels, List.lookup_append, hnew]
          simp
        · refine List.IsPrefix.trans ?_ (extends'.code.drop b.code.size)
          have hplaced : (place b (name, block')).code.toList
              = b.code.toList ++ (block'.code ++ [.ret]) := by
            simp [place, Builder.append, hcode]
          rw [hplaced, ← Array.length_toList, List.drop_left]
      · have hbeq : (name == name') = false := by simpa using heq
        rw [hbeq] at hname
        exact ih herror hname

/-- Labels that are new, distinct and not empty are accepted. -/
theorem foldl_place_error (herror : b.error = none)
    (hname : ∀ name ∈ subroutines.map Prod.fst, name ≠ "" ∧ b.labels.lookup name = none)
    (hdistinct : (subroutines.map Prod.fst).Nodup) :
    (subroutines.foldl place b).error = none := by
  induction subroutines generalizing b with
  | nil => exact herror
  | cons subroutine rest ih =>
      obtain ⟨name, block⟩ := subroutine
      rw [List.map_cons, List.nodup_cons] at hdistinct
      obtain ⟨hnotin, hdistinct⟩ := hdistinct
      obtain ⟨hne, hnew⟩ := hname name List.mem_cons_self
      obtain ⟨hlabel, -, hlabels⟩ := Builder.label_eq herror hne hnew
      refine ih hlabel (fun other hother => ?_) hdistinct
      obtain ⟨hne', hnew'⟩ := hname other (List.mem_cons_of_mem _ hother)
      refine ⟨hne', ?_⟩
      show (b.label name).labels.lookup other = none
      have hdiffers : (other == name) = false := by
        have : other ≠ name := fun heq => hnotin (heq ▸ hother)
        simpa using this
      rw [hlabels, List.lookup_append, hnew', List.lookup_cons, hdiffers]
      rfl

/-- A well-formed script is compiled, and its blocks are where they are looked for. -/
theorem WellFormed.exists_compile (h : s.WellFormed) : ∃ p, s.compile = .ok p ∧ s.Compiled p := by
  have herror := foldl_place_error (b := Builder.empty.append (s.main.code ++ [.stop])) rfl
    (fun name hname => ⟨h.named name hname, rfl⟩) h.distinct
  refine ⟨_, by rw [compile, Builder.build, herror], ?_, ?_⟩
  · have hmain := (foldl_place_extends s.subroutines
      (Builder.empty.append (s.main.code ++ [.stop]))).code
    have hstart : (Builder.empty.append (s.main.code ++ [.stop])).code.toList
        = s.main.code ++ [.stop] := by
      simp [Builder.append, Builder.empty]
    rw [hstart] at hmain
    exact hmain
  · intro name block hname
    exact foldl_place_lookup herror hname

end BlockScript

end Barrage
