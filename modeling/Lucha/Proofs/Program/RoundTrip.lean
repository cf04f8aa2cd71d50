import Lucha.Proofs.Program.Printing

/-!
# Printing and reading

A printable program that is written down and read again is the same up to spans
(`Program.parse_render`): its text holds the tokens of its tree, the grammar derives them from no
other tree, and a tree denotes one program only. The text does not show the spans, so it is the same
again when the program that was read is written down (`Program.render_eraseSpans`).
-/

namespace Lucha

open Grammar (Tree)

/-! ### The text does not show the spans -/

theorem Fighter.lines_eraseSpans (f : Fighter) : f.eraseSpans.lines = f.lines := by
  simp only [lines, eraseSpans, Table.values_map, List.map_map]
  rfl

theorem Block.lines_eraseSpans (b : Block) (level : Nat) :
    b.eraseSpans.lines level = b.lines level := by
  induction b generalizing level with
  | done => rfl
  | use name span next ih => simp only [eraseSpans, lines, ih]
  | choose condition yes no next hyes hno hnext =>
    simp only [eraseSpans, lines, hyes, hno, hnext, eraseSpans_eq_done_iff]

theorem Script.lines_eraseSpans (s : Script) : s.eraseSpans.lines = s.lines := by
  rw [lines, eraseSpans, Block.lines_eraseSpans]
  rfl

theorem Program.lines_eraseSpans (p : Program) : p.eraseSpans.lines = p.lines := by
  simp only [lines, eraseSpans, Table.values_map, List.flatMap_map, Fighter.lines_eraseSpans,
    Script.lines_eraseSpans]
  rfl

/-- Programs that are the same up to spans have the same text. -/
theorem Program.render_eraseSpans (p : Program) (width : Nat) :
    p.eraseSpans.render width = p.render width := by
  rw [render, lines_eraseSpans, render]

/-! ### Reading what is written -/

/-- What is read with notes is what is read without them, and the errors are the same. -/
theorem Parsed.map_program_ofSource (source : String) :
    (ofSource source).map Parsed.program = Program.parse source := by
  rw [ofSource, Program.parse]
  split <;> rename_i heq <;> rw [heq] <;> rfl

/-- What is noticed about a source text that holds a program: all its stray characters, and the
warnings about the program. -/
theorem Parsed.ofSource_of_parse {source : String} {p : Program}
    (h : Program.parse source = .ok p) :
    ofSource source = .ok ⟨p, (Scan.ofSource source).strays, p.warnings⟩ := by
  rw [Program.parse, Reading.program, Reading.ofSource] at h
  rw [ofSource, Reading.program, Reading.ofSource]
  cases hread : Parser.program (Scan.ofSource source).tokens with
  | error fault rest =>
    rw [hread] at h
    cases h
  | ok q rest =>
    rw [hread] at h
    cases h
    obtain ⟨-, rfl⟩ := Parser.program_eq_ok_iff.mp hread
    rfl

namespace Program.Printable

variable {p : Program}

/-- The kinds of the tokens in the text are those of the tree, and there are no stray characters. -/
theorem scan_render (h : p.Printable) (width : Nat) :
    (tokensOf (p.render width)).map Token.kind = p.tree.leaves.map Leaf.kind ∧
      (Scan.ofSource (p.render width)).strays = [] := by
  rw [tokensOf_eq]
  exact Scan.of_content (h.content_render width)

/-- What is printed of a printable program is accepted, and is the program up to spans. -/
theorem exists_parse_render (h : p.Printable) (width : Nat) :
    ∃ q, parse (p.render width) = .ok q ∧ q.eraseSpans = p.eraseSpans := by
  have hkinds : p.tree.DerivesKinds ((tokensOf (p.render width)).map Token.kind) :=
    ⟨h.written_tree, (h.scan_render width).1.symm⟩
  obtain ⟨t, heq, hderives⟩ := hkinds.exists_derives
  have hconsistent : t.Consistent := by
    rw [← Tree.consistent_eraseSpans_iff, heq, Tree.consistent_eraseSpans_iff]
    exact h.denotes_tree.consistent h.sound
  obtain ⟨q, hq⟩ := hconsistent.exists_denotes
  refine ⟨q, parse_eq_ok_iff.mpr ⟨t, hderives, hconsistent, hq⟩, ?_⟩
  -- both programs are denoted by one tree once the spans are gone
  have hdenotes := hq.eraseSpans
  rw [heq] at hdenotes
  exact hdenotes.unique h.denotes_tree.eraseSpans

end Program.Printable

namespace Program

/-- What is read is printable, and a printable program is read again from its text, at whatever
width: nothing in the text is stray, the program is the same up to spans, and so is its text. -/
theorem parse_render :
    (∀ source p, parse source = .ok p → p.Printable) ∧
    ∀ p : Program, p.Printable → ∀ width, ∃ parsed,
      Parsed.ofSource (p.render width) = .ok parsed ∧ parse (p.render width) = .ok parsed.program ∧
        parsed.strays = [] ∧ parsed.program.eraseSpans = p.eraseSpans ∧
          ∀ other, parsed.program.render other = p.render other := by
  refine ⟨fun source p => printable_of_parse, fun p h width => ?_⟩
  obtain ⟨q, hparse, heq⟩ := h.exists_parse_render width
  refine ⟨_, Parsed.ofSource_of_parse hparse, hparse, (h.scan_render width).2, heq, fun other => ?_⟩
  rw [← render_eraseSpans, heq, render_eraseSpans]

/-- The duel is printed, and read back from what is printed. -/
theorem parse_render_duel :
    duel.Printable ∧ ∃ parsed, Parsed.ofSource (duel.render 4) = .ok parsed ∧
      parse (duel.render 4) = .ok parsed.program ∧ parsed.strays = [] ∧
        parsed.program.eraseSpans = duel.eraseSpans ∧
          ∀ other, parsed.program.render other = duel.render other :=
  ⟨by decide +kernel, parse_render.2 duel (by decide +kernel) 4⟩

end Program

end Lucha
