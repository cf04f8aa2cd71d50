import Lucha.Proofs.Parser.Repetition

/-!
# What the readers of simulations read

A block is read as a list of instructions between braces, and blocks are lists of instructions told
differently (`Block.exists_ofList`), so the readers of blocks and of instructions are characterised
together, by induction on the levels of nesting that are left (`readsInstructions_instruction`). A
conditional without a second block is where an item is open: reading it says that no `sino` follows.
The rest of a simulation is read off the lines of its readers (`simulation_eq_ok_iff`).
-/

namespace Lucha

open Grammar (OneOrMore separated)
open Lucha.Parser (nestingLimit)

/-! ### Blocks as lists of instructions -/

namespace Instruction

/-- The tokens of an instruction. -/
def leaves (i : Instruction) : List Leaf :=
  (Block.cons i .done).leaves

/-- Conditionals of the instruction are written out, and nested no deeper than so many levels. -/
def Written (levels : Nat) (i : Instruction) : Prop :=
  (Block.cons i .done).Written ∧ (Block.cons i .done).nesting ≤ levels

/-- The instruction could go on with `sino`. -/
def Open (i : Instruction) : Prop :=
  ∃ condition yes, i = .choose condition yes .done

end Instruction

namespace Block

theorem leaves_cons (i : Instruction) (b : Block) : (cons i b).leaves = i.leaves ++ b.leaves := by
  cases i <;> simp [cons, Instruction.leaves, leaves]

theorem leaves_ofList (is : List Instruction) :
    (ofList is).leaves = is.flatMap Instruction.leaves := by
  induction is with
  | nil => rfl
  | cons i is ih =>
    rw [List.flatMap_cons, ← ih, ← leaves_cons]
    rfl

/-- A block is written out, and nested no deeper than so, if its first instruction is and the others
are. -/
theorem written_cons_iff {levels : Nat} {i : Instruction} {b : Block} :
    (cons i b).Written ∧ (cons i b).nesting ≤ levels ↔
      i.Written levels ∧ b.Written ∧ b.nesting ≤ levels := by
  cases i <;> simp only [cons, Instruction.Written, Written, nesting, Nat.max_le] <;> grind

/-- A block is written out if each of its instructions is. -/
theorem written_ofList_iff {levels : Nat} {is : List Instruction} :
    (ofList is).Written ∧ (ofList is).nesting ≤ levels ↔ ∀ i ∈ is, i.Written levels := by
  induction is with
  | nil => simp [ofList, Written, nesting]
  | cons i is ih =>
    rw [List.forall_mem_cons, ← ih, ← written_cons_iff]
    rfl

theorem ofList_eq_done_iff {is : List Instruction} : ofList is = done ↔ is = [] := by
  cases is with
  | nil => simp [ofList]
  | cons i is => cases i <;> simp [ofList, cons]

/-- Every block is that of some instructions. -/
theorem exists_ofList (b : Block) : ∃ is, ofList is = b := by
  induction b with
  | done => exact ⟨[], rfl⟩
  | use name span _ ih =>
    obtain ⟨is, rfl⟩ := ih
    exact ⟨.use name span :: is, rfl⟩
  | choose condition yes no _ _ _ ih =>
    obtain ⟨is, rfl⟩ := ih
    exact ⟨.choose condition yes no :: is, rfl⟩

end Block

namespace Parser

variable {ts rest : List Token}

/-! ### Conditions -/

theorem subjectOf?_eq_some_iff (k : Keyword) (subject : Subject) :
    subjectOf? k = some subject ↔ k = subject.word := by
  cases subject <;> cases k <;> simp [subjectOf?, Subject.word]

theorem statOf?_eq_some_iff (k : Keyword) (stat : Stat) :
    statOf? k = some stat ↔ k = stat.word := by
  cases stat <;> cases k <;> simp [statOf?, Stat.word]

theorem comparisonOf?_eq_some_iff {kind : TokenKind} {comparison : Comparison} :
    comparisonOf? kind = some comparison ↔ kind = .symbol comparison.symbol := by
  cases kind with
  | symbol m => cases comparison <;> cases m <;> simp [comparisonOf?, Comparison.symbol]
  | _ => simp [comparisonOf?]

theorem comparison_bind_eq_ok_iff {β : Type} {expected : String}
    {f : Comparison × Span → Parser β} {b : β} :
    (accept expected comparisonOf? >>= f) ts = .ok b rest ↔
      ∃ comparison span mid, Spells [⟨.symbol comparison.symbol, some span⟩] ts mid ∧
        f (comparison, span) mid = .ok b rest := by
  simp only [bind_eq_ok_iff, accept_eq_ok_iff, comparisonOf?_eq_some_iff, spells_kept, Prod.exists,
    existsAndEq, true_and]

theorem condition_eq_ok_iff {c : Condition} :
    condition ts = .ok c rest ↔ Spells c.leaves ts rest := by
  obtain ⟨subject, stat, comparison, threshold⟩ := c
  simp only [condition, mark_bind_eq_ok_iff, comparison_bind_eq_ok_iff, number_bind_eq_ok_iff,
    bind_eq_ok_iff (p := choice _ _), choice_eq_ok_iff subjectOf?_eq_some_iff,
    choice_eq_ok_iff statOf?_eq_some_iff, pure_eq_ok_iff, Condition.leaves, spells_cons_cons,
    Condition.mk.injEq, existsAndEq, exists_and_left, and_true]
  constructor
  · rintro ⟨mid₁, h₁, mid₂, h₂, mid₃, h₃, span, mid₄, h₄, h₅⟩
    refine ⟨mid₁, h₁, mid₂, h₂, mid₃, h₃, mid₄, ?_, h₅⟩
    exact spells_free.mpr ⟨span, spells_kept.mp h₄⟩
  · rintro ⟨mid₁, h₁, mid₂, h₂, mid₃, h₃, mid₄, h₄, h₅⟩
    obtain ⟨span, h₄⟩ := spells_free.mp h₄
    exact ⟨mid₁, h₁, mid₂, h₂, mid₃, h₃, span, mid₄, spells_kept.mpr h₄, h₅⟩

/-! ### Instructions -/

variable {levels : Nat} {p : Parser Instruction}

/-- The reader answers blocks that are not empty, with conditionals nested so many levels deep. -/
def ReadsBlocks (levels : Nat) (p : Parser Block) : Prop :=
  ∀ {ts rest b}, p ts = .ok b rest ↔
    (b ≠ .done ∧ b.Written ∧ b.nesting ≤ levels) ∧ Spells (Grammar.braced b.leaves) ts rest

/-- The reader answers instructions, with conditionals nested so many levels deep. -/
def ReadsInstructions (levels : Nat) (p : Parser Instruction) : Prop :=
  ∀ {ts rest i}, p ts = .ok i rest ↔
    i.Written levels ∧ Spells i.leaves ts rest ∧ (i.Open → ¬ Starts (.keyword .sino) rest)

theorem avoids_instruction :
    Avoids Bounds (Instruction.Written levels) Instruction.leaves := by
  intro i _
  cases i <;> exact ⟨_, _, rfl, by simp [Leaf.word]⟩

/-- With a reader of instructions, the reader of blocks answers blocks of them. -/
theorem readsBlocks_block (hp : ReadsInstructions levels p) : ReadsBlocks levels (block p) := by
  intro ts rest b
  have hitem : ReadsOpen p (Instruction.Written levels) Instruction.Open Instruction.leaves id := by
    intro ts rest a
    rw [hp]
    simp only [id_eq, existsAndEq, and_true]
  rw [block, map_eq_ok_iff]
  simp only [braced_eq_ok_iff_of_open hitem avoids_instruction, List.map_id]
  constructor
  · rintro ⟨_, ⟨is, ⟨⟨hne, hwritten⟩, hleaves⟩, rfl⟩, rfl⟩
    rw [← Block.leaves_ofList] at hleaves
    exact ⟨⟨mt Block.ofList_eq_done_iff.mp hne, Block.written_ofList_iff.mpr hwritten⟩, hleaves⟩
  · rintro ⟨⟨hne, hwritten⟩, hleaves⟩
    obtain ⟨is, rfl⟩ := Block.exists_ofList b
    rw [Block.leaves_ofList] at hleaves
    exact ⟨is, ⟨is, ⟨⟨mt Block.ofList_eq_done_iff.mpr hne, Block.written_ofList_iff.mp hwritten⟩,
      hleaves⟩, rfl⟩, rfl⟩

theorem use_eq_ok_iff {i : Instruction} :
    use ts = .ok i rest ↔ ∃ name span, .use name span = i ∧ Spells i.leaves ts rest := by
  rw [use]
  simp only [word_bind_eq_ok_iff, identAt_bind_eq_ok_iff, mark_bind_eq_ok_iff, pure_eq_ok_iff]
  constructor
  · rintro ⟨mid₁, h₁, name, span, mid₂, h₂, _, h₃, rfl, rfl⟩
    exact ⟨name, span, rfl, spells_cons.mpr ⟨mid₁, h₁, spells_cons.mpr ⟨mid₂, h₂, h₃⟩⟩⟩
  · rintro ⟨name, span, rfl, hleaves⟩
    obtain ⟨mid₁, h₁, hleaves⟩ := spells_cons.mp hleaves
    obtain ⟨mid₂, h₂, h₃⟩ := spells_cons.mp hleaves
    exact ⟨mid₁, h₁, name, span, mid₂, h₂, rest, h₃, rfl, rfl⟩

/-- What follows the word `sino`, if the word stands there at all. -/
private theorem otherwise_eq_ok_iff (hp : ReadsBlocks levels (block p)) {c : Condition}
    {yes : Block} {i : Instruction} :
    (skip (.keyword .sino) >>= fun found =>
      if found = true then block p >>= fun no => pure (Instruction.choose c yes no)
      else pure .done >>= fun no => pure (Instruction.choose c yes no)) ts = .ok i rest ↔
      ∃ no : Block, .choose c yes no = i ∧ (no.Written ∧ no.nesting ≤ levels) ∧
        Spells (if no = .done then [] else .word .sino :: Grammar.braced no.leaves) ts rest ∧
        (no = .done → ¬ Starts (.keyword .sino) rest) := by
  rw [skip_bind_eq_ok_iff]
  constructor
  · rintro (⟨mid, hword, hread⟩ | ⟨hstop, hread⟩)
    · obtain ⟨no, last, hno, hpure⟩ := bind_eq_ok_iff.mp hread
      obtain ⟨rfl, rfl⟩ := pure_eq_ok_iff.mp hpure
      obtain ⟨⟨hne, hwritten⟩, hleaves⟩ := hp.mp hno
      refine ⟨no, rfl, hwritten, ?_, fun hdone => absurd hdone hne⟩
      rw [if_neg hne]
      exact spells_cons.mpr ⟨mid, hword, hleaves⟩
    · obtain ⟨rfl, rfl⟩ := pure_eq_ok_iff.mp hread
      exact ⟨.done, rfl, ⟨trivial, Nat.zero_le _⟩, rfl, fun _ => hstop⟩
  · rintro ⟨no, rfl, hwritten, hleaves, hstop⟩
    by_cases hdone : no = .done
    · rw [if_pos hdone] at hleaves
      cases hdone
      cases spells_nil.mp hleaves
      exact .inr ⟨hstop rfl, rfl⟩
    · rw [if_neg hdone] at hleaves
      obtain ⟨mid, hword, hleaves⟩ := spells_cons.mp hleaves
      exact .inl ⟨mid, hword, bind_ok (hp.mpr ⟨⟨hdone, hwritten⟩, hleaves⟩) rfl⟩

/-- A conditional is written out if its branches are, the first one is not empty, and both are
nested one level less. -/
theorem written_choose_iff {c : Condition} {yes no : Block} :
    (Instruction.choose c yes no).Written (levels + 1) ↔
      (yes ≠ .done ∧ yes.Written ∧ yes.nesting ≤ levels) ∧ no.Written ∧ no.nesting ≤ levels := by
  simp only [Instruction.Written, Block.cons, Block.Written, Block.nesting, Nat.max_le,
    Nat.add_le_add_iff_right]
  grind

theorem open_choose_iff {c : Condition} {yes no : Block} :
    (Instruction.choose c yes no).Open ↔ no = .done := by
  simp [Instruction.Open]

/-- With a reader of blocks, the reader of conditionals takes `sino` and another block wherever the
word follows the first one. -/
theorem choose_eq_ok_iff (hp : ReadsBlocks levels (block p)) {i : Instruction} :
    choose p ts = .ok i rest ↔ ∃ c yes no, .choose c yes no = i ∧
      i.Written (levels + 1) ∧ Spells i.leaves ts rest ∧
        (i.Open → ¬ Starts (.keyword .sino) rest) := by
  rw [choose]
  simp only [word_bind_eq_ok_iff, mark_bind_eq_ok_iff, bind_eq_ok_iff (p := condition),
    condition_eq_ok_iff, bind_eq_ok_iff (p := block p)]
  constructor
  · rintro ⟨mid₁, h₁, mid₂, h₂, c, mid₃, h₃, mid₄, h₄, yes, mid₅, hyes, hread⟩
    obtain ⟨hwritten, h₅⟩ := hp.mp hyes
    obtain ⟨no, rfl, hno, h₆, hstop⟩ := (otherwise_eq_ok_iff hp).mp hread
    have hblocks := spells_append.mpr ⟨mid₅, h₅, h₆⟩
    have hbehind := spells_append.mpr ⟨mid₃, h₃, spells_cons.mpr ⟨mid₄, h₄, hblocks⟩⟩
    have hleaves := spells_cons.mpr ⟨mid₁, h₁, spells_cons.mpr ⟨mid₂, h₂, hbehind⟩⟩
    refine ⟨c, yes, no, rfl, written_choose_iff.mpr ⟨hwritten, hno⟩, ?_,
      fun hopen => hstop (open_choose_iff.mp hopen)⟩
    rwa [Instruction.leaves, Block.cons, Block.leaves, Block.leaves, List.append_nil]
  · rintro ⟨c, yes, no, rfl, hwritten, hleaves, hstop⟩
    obtain ⟨hyes, hno⟩ := written_choose_iff.mp hwritten
    obtain ⟨mid₁, h₁, hleaves⟩ := spells_cons.mp hleaves
    obtain ⟨mid₂, h₂, hleaves⟩ := spells_cons.mp hleaves
    obtain ⟨mid₃, h₃, hleaves⟩ := spells_append.mp hleaves
    obtain ⟨mid₄, h₄, hleaves⟩ := spells_cons.mp hleaves
    rw [Block.leaves, List.append_nil] at hleaves
    obtain ⟨mid₅, h₅, h₆⟩ := spells_append.mp hleaves
    refine ⟨mid₁, h₁, mid₂, h₂, c, mid₃, h₃, mid₄, h₄, yes, mid₅, hp.mpr ⟨hyes, h₅⟩, ?_⟩
    exact (otherwise_eq_ok_iff hp).mpr
      ⟨no, rfl, hno, h₆, fun hdone => hstop (open_choose_iff.mpr hdone)⟩

/-- An instruction is a use, or whatever is read where a conditional starts. -/
theorem instructionWith_eq_ok_iff {i : Instruction} :
    instructionWith p ts = .ok i rest ↔
      (∃ name span, .use name span = i ∧ Spells i.leaves ts rest) ∨
        Starts (.keyword .si) ts ∧ p ts = .ok i rest := by
  rw [instructionWith, peek_bind_eq_ok_iff, peek_bind_eq_ok_iff, use_eq_ok_iff]
  constructor
  · rintro (⟨-, huse⟩ | ⟨-, hchoose | ⟨-, hrefuse⟩⟩)
    · exact .inl huse
    · exact .inr hchoose
    · exact absurd hrefuse refuse_ne_ok
  · rintro (⟨name, span, rfl, hleaves⟩ | ⟨hstarts, hchoose⟩)
    · exact .inl ⟨hleaves.starts_iff.mpr rfl, name, span, rfl, hleaves⟩
    · refine .inr ⟨fun husa => ?_, .inl ⟨hstarts, hchoose⟩⟩
      cases husa.symm.trans hstarts

private theorem written_use (name : String) (span : Span) :
    (Instruction.use name span).Written levels :=
  ⟨trivial, Nat.zero_le _⟩

/-- Instructions are read with conditionals nested as deep as there are levels left, no deeper. -/
theorem readsInstructions_instruction (levels : Nat) :
    ReadsInstructions levels (instruction levels) := by
  induction levels with
  | zero =>
    intro ts rest i
    rw [instruction, instructionWith_eq_ok_iff]
    constructor
    · rintro (⟨name, span, rfl, hleaves⟩ | ⟨-, hrefuse⟩)
      · exact ⟨written_use name span, hleaves, fun ⟨_, _, hopen⟩ => nomatch hopen⟩
      · exact absurd hrefuse refuseFor_ne_ok
    · rintro ⟨⟨-, hnesting⟩, hleaves, -⟩
      cases i with
      | use name span => exact .inl ⟨name, span, rfl, hleaves⟩
      | choose c yes no =>
        -- a conditional is nested one level deep at least, and there is none left
        rw [Block.cons, Block.nesting] at hnesting
        omega
  | succ levels ih =>
    intro ts rest i
    rw [instruction, instructionWith_eq_ok_iff, choose_eq_ok_iff (readsBlocks_block ih)]
    constructor
    · rintro (⟨name, span, rfl, hleaves⟩ | ⟨-, _, _, _, -, hread⟩)
      · exact ⟨written_use name span, hleaves, fun ⟨_, _, hopen⟩ => nomatch hopen⟩
      · exact hread
    · rintro ⟨hwritten, hleaves, hstop⟩
      cases i with
      | use name span => exact .inl ⟨name, span, rfl, hleaves⟩
      | choose c yes no =>
        exact .inr ⟨hleaves.starts_iff.mpr rfl, c, yes, no, rfl, hwritten, hleaves, hstop⟩

/-! ### Scripts and simulations -/

/-- The block of a script. -/
theorem body_eq_ok_iff {b : Block} :
    block (instruction nestingLimit) ts = .ok b rest ↔
      (b ≠ .done ∧ b.Written ∧ b.nesting ≤ nestingLimit) ∧
        Spells (Grammar.braced b.leaves) ts rest :=
  readsBlocks_block (readsInstructions_instruction nestingLimit)

/-- A script is read where it is written out, with conditionals nested up to the limit. -/
theorem script_eq_ok_iff {s : Script} :
    script ts = .ok s rest ↔ s.Written ∧ Spells s.leaves ts rest := by
  obtain ⟨fighter, body, span⟩ := s
  simp only [script, wordAt_bind_eq_ok_iff, identAt_bind_eq_ok_iff, exists_spells_identAt_and,
    bind_eq_ok_iff (p := block _), body_eq_ok_iff, pure_eq_ok_iff, Script.mk.injEq]
  constructor
  · rintro ⟨_, mid₁, h₁, _, mid₂, h₂, _, _, ⟨hwritten, h₃⟩, ⟨rfl, rfl, rfl⟩, rfl⟩
    exact ⟨hwritten, spells_cons.mpr ⟨mid₁, h₁, spells_cons.mpr ⟨mid₂, h₂, h₃⟩⟩⟩
  · rintro ⟨hwritten, hleaves⟩
    obtain ⟨mid₁, h₁, hleaves⟩ := spells_cons.mp hleaves
    obtain ⟨mid₂, h₂, h₃⟩ := spells_cons.mp hleaves
    exact ⟨span, mid₁, h₁, fighter, mid₂, h₂, body, rest, ⟨hwritten, h₃⟩, ⟨rfl, rfl, rfl⟩, rfl⟩

theorem matchup_eq_ok_iff {m : Matchup} :
    matchup ts = .ok m rest ↔ Spells m.leaves ts rest := by
  obtain ⟨fighterA, fighterB, starter, maxTurns, span⟩ := m
  rw [matchup, wordAt_bind_eq_ok_iff]
  simp only [word_bind_eq_ok_iff, mark_bind_eq_ok_iff, identAt_bind_eq_ok_iff,
    exists_spells_identAt_and, number_bind_eq_ok_iff, pure_eq_ok_iff, Matchup.mk.injEq,
    Matchup.leaves, Grammar.braced, List.cons_append, List.nil_append, spells_cons_cons,
    existsAndEq, exists_and_left, and_true]

theorem avoids_script : Avoids Bounds Script.Written Script.leaves := by
  intro s _
  exact ⟨_, _, rfl, by simp [Leaf.wordAt]⟩

theorem fight_eq_ok_iff {ss : List Script} :
    fight ts = .ok ss rest ↔ OneOrMore Script.Written ss ∧
      Spells (.word .pelea :: Grammar.braced (ss.flatMap Script.leaves)) ts rest := by
  rw [fight, word_bind_eq_ok_iff]
  simp only [braced_eq_ok_iff (reads_id script_eq_ok_iff) avoids_script, List.map_id]
  constructor
  · rintro ⟨mid, hword, _, ⟨hwritten, hleaves⟩, rfl⟩
    exact ⟨hwritten, spells_cons.mpr ⟨mid, hword, hleaves⟩⟩
  · rintro ⟨hwritten, hleaves⟩
    obtain ⟨mid, hword, hleaves⟩ := spells_cons.mp hleaves
    exact ⟨mid, hword, ss, ⟨hwritten, hleaves⟩, rfl⟩

/-- A simulation is read where a matchup stands with one or more scripts behind it. -/
theorem simulation_eq_ok_iff {m : Matchup} {ss : List Script} :
    simulation ts = .ok (m, ss) rest ↔ OneOrMore Script.Written ss ∧
      Spells (.word .simulacion :: Grammar.braced (m.leaves ++ .word .pelea ::
        Grammar.braced (ss.flatMap Script.leaves))) ts rest := by
  simp only [simulation, word_bind_eq_ok_iff, mark_bind_eq_ok_iff, pure_eq_ok_iff,
    bind_eq_ok_iff (p := matchup), matchup_eq_ok_iff, bind_eq_ok_iff (p := fight), fight_eq_ok_iff,
    Prod.mk.injEq]
  constructor
  · rintro ⟨mid₁, h₁, mid₂, h₂, _, mid₃, h₃, _, mid₄, ⟨hwritten, h₄⟩, _, h₅, ⟨rfl, rfl⟩, rfl⟩
    refine ⟨hwritten, spells_cons.mpr ⟨mid₁, h₁, spells_cons.mpr ⟨mid₂, h₂, ?_⟩⟩⟩
    exact spells_append.mpr ⟨mid₄, spells_append.mpr ⟨mid₃, h₃, h₄⟩, h₅⟩
  · rintro ⟨hwritten, hleaves⟩
    obtain ⟨mid₁, h₁, hleaves⟩ := spells_cons.mp hleaves
    obtain ⟨mid₂, h₂, hleaves⟩ := spells_cons.mp hleaves
    obtain ⟨mid₄, hleaves, h₅⟩ := spells_append.mp hleaves
    obtain ⟨mid₃, h₃, h₄⟩ := spells_append.mp hleaves
    exact ⟨mid₁, h₁, mid₂, h₂, m, mid₃, h₃, ss, mid₄, ⟨hwritten, h₄⟩, rest, h₅, ⟨rfl, rfl⟩, rfl⟩

end Parser

end Lucha
