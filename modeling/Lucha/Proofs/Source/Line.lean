import Lucha.Proofs.Text.OneLine
import Lucha.Proofs.Token.Partition

/-!
# Places and lines

The line that a place is on is found in three ways that come to the same: a position counts the line
feeds before it and the characters behind the last of them (`Position.line_after_start`,
`Position.column_after_start`), a text falls into lines at its line feeds (`getElem?_splitOn`), and
a span has its line looked up from the bytes before it (`Span.lineText_eq`).
-/

namespace Lucha

open Lucha.Span (lastLine)

namespace Span

theorem lastLine_concat_newline (before : List Char) : lastLine (before ++ ['\n']) = [] := by
  simp [lastLine]

theorem lastLine_concat {c : Char} (h : c ≠ '\n') (before : List Char) :
    lastLine (before ++ [c]) = lastLine before ++ [c] := by
  simp [lastLine, h]

theorem newline_notMem_takeWhile (cs : List Char) : '\n' ∉ cs.takeWhile (· ≠ '\n') :=
  fun h => absurd (List.all_eq_true.mp List.all_takeWhile _ h) (by decide)

/-- The last line of a text has no line feed. -/
theorem newline_notMem_lastLine (before : List Char) : '\n' ∉ lastLine before := by
  rw [lastLine, List.mem_reverse]
  exact newline_notMem_takeWhile _

end Span

/-! ### Counting -/

namespace Position

/-- The number of a line is one more than the number of line feeds before it. -/
theorem line_after_start (before : List Char) :
    (start.after before).line = before.count '\n' + 1 := by
  induction before using List.reverseRecOn with
  | nil => rfl
  | append_singleton before c ih =>
    rw [after_append, after_cons, after_nil, next, List.count_append]
    by_cases h : c = '\n'
    · rw [if_pos h, ih, h]
      rfl
    · simp [h, ih]

/-- The number of a column is one more than the number of characters before it on its line. -/
theorem column_after_start (before : List Char) :
    (start.after before).column = (lastLine before).length + 1 := by
  induction before using List.reverseRecOn with
  | nil => rfl
  | append_singleton before c ih =>
    rw [after_append, after_cons, after_nil, next]
    by_cases h : c = '\n'
    · rw [if_pos h, h, Span.lastLine_concat_newline]
      rfl
    · rw [if_neg h, Span.lastLine_concat h, ih, List.length_append]
      rfl

end Position

/-! ### Lines of a text -/

/-- The lines before that of a place, and what the others are cut from: by induction from the end of
the text before the place. -/
private theorem exists_splitOn (before : List Char) : ∃ lines : List (List Char),
    lines.length = before.count '\n' ∧ ∀ rest,
      (before ++ rest).splitOn '\n' = lines ++ (lastLine before ++ rest).splitOn '\n' := by
  induction before using List.reverseRecOn with
  | nil => exact ⟨[], rfl, fun _ => rfl⟩
  | append_singleton before c ih =>
    obtain ⟨lines, hlength, hlines⟩ := ih
    by_cases h : c = '\n'
    · subst h
      refine ⟨lines ++ [lastLine before], ?_, fun rest => ?_⟩
      · rw [List.length_append, hlength, List.count_append]
        rfl
      · rw [List.append_assoc, hlines, Span.lastLine_concat_newline, List.singleton_append,
          List.splitOn_append_cons_self_of_not_mem (Span.newline_notMem_lastLine before),
          List.append_assoc]
        rfl
    · refine ⟨lines, ?_, fun rest => ?_⟩
      · simp [hlength, h]
      · rw [List.append_assoc, hlines, Span.lastLine_concat h, List.append_assoc]

/-- The first line of a text. -/
theorem head?_splitOn (cs : List Char) :
    (cs.splitOn '\n').head? = some (cs.takeWhile (· ≠ '\n')) := by
  induction cs with
  | nil => rfl
  | cons c cs ih =>
    rw [List.splitOn_cons_eq_if_modifyHead]
    by_cases h : c = '\n'
    · simp [h]
    · simp [h, ih]

/-- The last line of the text before a place. -/
theorem getLast?_splitOn (before : List Char) :
    (before.splitOn '\n').getLast? = some (lastLine before) := by
  obtain ⟨lines, -, hlines⟩ := exists_splitOn before
  have hsplit := hlines []
  rw [List.append_nil, List.append_nil,
    List.splitOn_eq_singleton (Span.newline_notMem_lastLine before)] at hsplit
  rw [hsplit, List.getLast?_concat]

/-- The line that a place is on: what stands on it before the place, and what stands behind. -/
theorem getElem?_splitOn (before rest : List Char) :
    ((before ++ rest).splitOn '\n')[before.count '\n']?
      = some (lastLine before ++ rest.takeWhile (· ≠ '\n')) := by
  obtain ⟨lines, hlength, hlines⟩ := exists_splitOn before
  have hbefore : ∀ c ∈ lastLine before, decide (c ≠ '\n') = true := fun c hc =>
    decide_eq_true fun heq => Span.newline_notMem_lastLine before (heq ▸ hc)
  rw [hlines, ← hlength, List.getElem?_append_right (Nat.le_refl _), Nat.sub_self,
    ← List.head?_eq_getElem?, head?_splitOn, List.takeWhile_append_of_pos hbefore]

namespace Span

/-- A text is cut behind a part of it by the number of bytes of that part. -/
theorem cutAt_width (before rest : List Char) :
    cutAt (width before) (before ++ rest) = (before, rest) := by
  induction before with
  | nil => cases rest <;> rfl
  | cons c before ih =>
    obtain ⟨n, hn, -, hrest⟩ := exists_width_cons c before
    rw [List.cons_append, hn, cutAt, hrest, ih]

/-- The line of a span that starts behind some text. -/
theorem lineText_eq {span : Span} {source : String} {before rest : List Char}
    (hsource : source.toList = before ++ rest) (hstart : span.start = width before) :
    span.lineText source
      = String.ofList (withoutReturns (lastLine before ++ rest.takeWhile (· ≠ '\n'))) := by
  rw [lineText, hsource, hstart, cutAt_width]

/-- The line of a span is one line. -/
theorem oneLine_lineText (span : Span) (source : String) :
    Text.OneLine (span.lineText source) := by
  have hkept (cs : List Char) (h : '\n' ∉ cs) : '\n' ∉ withoutReturns cs := by
    rw [withoutReturns, List.mem_reverse]
    exact fun hmem => h (List.mem_reverse.mp ((List.dropWhile_sublist _).subset hmem))
  rw [lineText, Text.oneLine_ofList]
  refine hkept _ ?_
  rw [List.mem_append, not_or]
  exact ⟨newline_notMem_lastLine _, newline_notMem_takeWhile _⟩

/-- Returns are taken away behind what is no return. -/
theorem withoutReturns_append_cons {c : Char} (h : c ≠ '\r') (cs ds : List Char) :
    withoutReturns (cs ++ c :: ds) = cs ++ c :: withoutReturns ds := by
  have hreverse : (cs ++ c :: ds).reverse = ds.reverse ++ c :: cs.reverse := by simp
  rw [withoutReturns, withoutReturns, hreverse, List.dropWhile_append]
  split
  · rename_i hnil
    rw [List.isEmpty_iff.mp hnil]
    simp [h]
  · simp

end Span

end Lucha
