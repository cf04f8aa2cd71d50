import Lucha.Proofs.Source.Line
import Mathlib.Data.List.DropRight

/-!
# The places of tokens and strays

A token tells where its first character stands and a stray where it stands itself: the line is
numbered by the line feeds before it, the column by the characters behind the last of them
(`Numbers`). The line that is shown for a token is the one of that number, and in a text of fewer
characters than the largest quantity the numbers are quantities (`Lexer.places_exact`).
-/

namespace Lucha

/-- The numbers of the place behind some text: both count from one, lines the line feeds and columns
the characters since the last line feed or the start. -/
structure Numbers (before : List Char) (line column : Nat) : Prop where
  line : line = 1 + before.count '\n'
  column : column = 1 + (before.rtakeWhile (· ≠ '\n')).length

/-- A position has the numbers of the text that leads to it. -/
theorem Position.numbers_after_start (before : List Char) :
    Numbers before (start.after before).line (start.after before).column where
  line := (line_after_start before).trans (Nat.add_comm ..)
  column := (column_after_start before).trans (Nat.add_comm ..)

namespace Numbers

variable {before behind : List Char} {line column : Nat}

/-- Neither number is more than one above the number of characters. -/
theorem le_length (h : Numbers before line column) :
    line ≤ before.length + 1 ∧ column ≤ before.length + 1 := by
  have hcount : before.count '\n' ≤ before.length := List.count_le_length
  have hsuffix := (before.rtakeWhile_suffix (· ≠ '\n')).length_le
  obtain ⟨rfl, rfl⟩ := h
  omega

theorem isQuantity (h : Numbers before line column) {cs : List Char} (hcs : before <+: cs)
    (hlength : cs.length < Quantity.largest.toNat) :
    line ≤ Quantity.largest.toNat ∧ column ≤ Quantity.largest.toNat := by
  have hle := hcs.length_le
  have hnumbers := h.le_length
  omega

/-- The line of a place is found by its number. -/
theorem getElem?_splitOn (h : Numbers before line column) (behind : List Char) :
    ((before ++ behind).splitOn '\n')[line - 1]?
      = some (Span.lastLine before ++ behind.takeWhile (· ≠ '\n')) := by
  rw [h.line, Nat.add_sub_cancel_left, Lucha.getElem?_splitOn]

end Numbers

namespace Scan

/-- Every token covers some text of the source, and the one that ends the source covers nothing at
its end. -/
theorem exists_covering {cs : List Char} {token : Token}
    (h : token ∈ (ofChars cs).tokens ++ [(ofChars cs).endToken]) :
    ∃ before text behind, cs = before ++ text ++ behind ∧
      token.span = .covering (Position.start.after before) text ∧
      (token.kind = .endOfInput → text = [] ∧ behind = []) ∧
      (token.kind ≠ .endOfInput → text ≠ []) := by
  obtain hmem | hend := List.mem_append.mp h
  · have hkind := kind_ne_endOfInput hmem
    obtain ⟨xs, kind, text, ys, hpieces, rfl⟩ := mem_tokens_iff.mp hmem
    refine ⟨xs.flatMap Piece.text, text, ys.flatMap Piece.text, ?_, rfl, fun h => absurd h hkind,
      fun _ => (Piece.Holds.fits hpieces).1.ne_nil⟩
    rw [← Piece.flatMap_text_ofChars cs, hpieces, List.flatMap_append, List.append_assoc]
    rfl
  · obtain rfl := List.mem_singleton.mp hend
    exact ⟨cs, [], [], by simp, rfl, fun _ => ⟨rfl, rfl⟩, fun h => absurd rfl h⟩

end Scan

namespace Lexer

/-- A token covers some text of a source and tells the place where that begins. -/
structure TokenAt (source : String) (token : Token) (before text behind : List Char) : Prop where
  source_eq : source.toList = before ++ text ++ behind
  start : token.span.start = width before
  stop : token.span.stop = width (before ++ text)
  /-- The token that ends the source covers nothing there. -/
  ends : token.kind = .endOfInput → text = [] ∧ behind = []
  begins : token.kind ≠ .endOfInput → text ≠ []
  numbers : Numbers before token.span.line token.span.column
  /-- The line that is shown is the one of the number, without the returns at its end. -/
  shown : (source.toList.splitOn '\n')[token.span.line - 1]?.map (List.rdropWhile (· = '\r'))
    = some (token.span.lineText source).toList

/-- A stray is a character of a source that no token covers, and tells its place. -/
structure StrayAt (source : String) (stray : Stray) (before behind : List Char) : Prop where
  source_eq : source.toList = before ++ stray.char :: behind
  uncovered : ∀ token ∈ tokens source,
    ¬ (token.span.start ≤ width before ∧ width before < token.span.stop)
  numbers : Numbers before stray.line stray.column

variable {source : String}

/-- Every token stands at the place that it names. -/
theorem exists_tokenAt {token : Token} (h : token ∈ tokens source) :
    ∃ before text behind, TokenAt source token before text behind := by
  rw [tokens_eq] at h
  obtain ⟨before, text, behind, hsource, hspan, hends, hbegins⟩ := Scan.exists_covering h
  have hstart : token.span.start = width before := hspan ▸ Span.start_covering before text
  have hnumbers : Numbers before token.span.line token.span.column :=
    hspan ▸ Position.numbers_after_start before
  refine ⟨before, text, behind, hsource, hstart, hspan ▸ Span.stop_covering before text, hends,
    hbegins, hnumbers, ?_⟩
  rw [List.append_assoc] at hsource
  rw [Span.lineText_eq hsource hstart, hsource, hnumbers.getElem?_splitOn, String.toList_ofList]
  rfl

theorem exists_strayAt {stray : Stray} (h : stray ∈ (ofSource source).takeRest.2.strays) :
    ∃ before behind, StrayAt source stray before behind := by
  obtain ⟨hpartition, -⟩ := tokens_partition source
  obtain ⟨before, c, behind, hsource, rfl, -⟩ := hpartition.passed stray h
  exact ⟨before, behind, hsource, (hpartition.outside before c behind hsource).mpr (.inr (.inr h)),
    Position.numbers_after_start before⟩

/-- Places are told exactly. Every token of a source text has the numbers of the place where the
text that it covers begins, and shows the line of that number without the returns at its end. Every
stray has the numbers of a place where its character stands and no token covers it. In a text of
fewer characters than the largest quantity all these numbers are quantities. -/
theorem places_exact (source : String) :
    (∀ token ∈ tokens source, ∃ before text behind, TokenAt source token before text behind) ∧
    (∀ stray ∈ (ofSource source).takeRest.2.strays,
      ∃ before behind, StrayAt source stray before behind) ∧
    (source.length < Quantity.largest.toNat →
      (∀ token ∈ tokens source, token.span.line ≤ Quantity.largest.toNat ∧
        token.span.column ≤ Quantity.largest.toNat) ∧
      ∀ stray ∈ (ofSource source).takeRest.2.strays,
        stray.line ≤ Quantity.largest.toNat ∧ stray.column ≤ Quantity.largest.toNat) := by
  refine ⟨fun _ => exists_tokenAt, fun _ => exists_strayAt, fun hlength =>
    ⟨fun token htoken => ?_, fun stray hstray => ?_⟩⟩
  · obtain ⟨before, text, behind, h⟩ := exists_tokenAt htoken
    have hprefix : before <+: source.toList := by
      rw [h.source_eq, List.append_assoc]
      exact List.prefix_append _ _
    exact h.numbers.isQuantity hprefix hlength
  · obtain ⟨before, behind, h⟩ := exists_strayAt hstray
    have hprefix : before <+: source.toList := by
      rw [h.source_eq]
      exact List.prefix_append _ _
    exact h.numbers.isQuantity hprefix hlength

end Lexer

end Lucha
