import Lucha.Report.Diagnostic
import Lucha.Proofs.Misfit
import Lucha.Proofs.Parser.Wording
import Lucha.Proofs.Source.Line

/-!
# Reports point at the token that is refused

A token begins with some character of its line (`Token.OnLine`), and its column counts what stands
before that there. The report of a syntax error has lines that nothing in it breaks up: what is said
about the token is on one line, and so are the line of the source text and the notes. So it shows
that line behind a gutter, with a mark below the first character of the token
(`Report.report_points_at_token`).
-/

namespace Lucha

open Text (OneLine)
open Grammar (Viable outline_at)
open Lucha.Parser (outline_of_program_eq_error)

/-- A token of a source text begins with `c`; on its line `head` stands before that and `tail`
behind, without the returns at the end. -/
def Token.OnLine (token : Token) (source : String) (head : List Char) (c : Char)
    (tail : List Char) : Prop :=
  ∃ before behind, source.toList = before ++ c :: behind ∧ token.span.start = width before ∧
    token.span.line = before.count '\n' + 1 ∧ (before.splitOn '\n').getLast? = some head ∧
    (source.toList.splitOn '\n')[before.count '\n']?.map Span.withoutReturns
      = some (head ++ c :: tail)

namespace Scan

variable {source : String} {token : Token}

/-- A token starts with a character that is no blank, and has its place from the text before it. -/
theorem exists_start (h : token ∈ (ofSource source).tokens) :
    ∃ before c behind, source.toList = before ++ c :: behind ∧ isSpacing c = false ∧
      token.span.start = width before ∧ token.span.line = before.count '\n' + 1 ∧
      token.span.column = (Span.lastLine before).length + 1 := by
  obtain ⟨xs, kind, text, ys, hpieces, rfl⟩ := mem_tokens_iff.mp h
  have hfits := Piece.Holds.fits hpieces
  obtain ⟨c, text, rfl⟩ := List.exists_cons_of_ne_nil hfits.1.ne_nil
  refine ⟨xs.flatMap Piece.text, c, text ++ ys.flatMap Piece.text, ?_,
    (hfits.1.classes List.mem_cons_self).1, Span.start_covering _ _,
    Position.line_after_start _, Position.column_after_start _⟩
  rw [← Piece.flatMap_text_ofChars source.toList, hpieces, List.flatMap_append]
  rfl

/-- A token has its column from what stands before it on its line, and the text of that line. -/
theorem exists_onLine (h : token ∈ (ofSource source).tokens) :
    ∃ head c tail, token.OnLine source head c tail ∧ token.span.column = head.length + 1 ∧
      token.span.lineText source = String.ofList (head ++ c :: tail) := by
  obtain ⟨before, c, behind, hsource, hspacing, hstart, hline, hcolumn⟩ := exists_start h
  -- line feeds and returns are blanks, so the token does not begin with one
  have hnewline : c ≠ '\n' := by
    rintro rfl
    cases hspacing
  have hreturn : c ≠ '\r' := by
    rintro rfl
    cases hspacing
  have htake : (c :: behind).takeWhile (· ≠ '\n') = c :: behind.takeWhile (· ≠ '\n') := by
    simp [hnewline]
  refine ⟨Span.lastLine before, c, Span.withoutReturns (behind.takeWhile (· ≠ '\n')),
    ⟨before, behind, hsource, hstart, hline, getLast?_splitOn before, ?_⟩, hcolumn, ?_⟩
  · rw [hsource, getElem?_splitOn, htake, Option.map_some,
      Span.withoutReturns_append_cons hreturn]
  · rw [Span.lineText_eq hsource hstart, htake, Span.withoutReturns_append_cons hreturn]

end Scan

namespace Report

/-- The first line of a report. -/
def headline (origin : String) (line column : Nat) (cause : Cause) : String :=
  s!"{origin}:{line}:{column}: {cause.message}"

/-- What stands before the source line in a report: its number, and a bar. -/
def gutter (line : Nat) : String :=
  "  " ++ toString line ++ " | "

/-- What stands before the mark in a report. -/
def margin (line column : Nat) : String :=
  Text.spaces ((toString line).length + 2) ++ " | " ++ Text.spaces (column - 1)

/-- The line of a report that tells a stray. -/
def note (stray : Stray) : String :=
  "note: " ++ stray.message

/-- The lines of a report are a header, the line of the token behind the gutter, a mark below the
first character of the token, and a note for each stray. -/
def PointsAt (report source : String) (token : Token) (strays : List Stray) : Prop :=
  ∃ head c tail, token.OnLine source head c tail ∧ ∃ header indent,
    report.toList.splitOn '\n'
      = header :: ((gutter token.span.line).toList ++ (head ++ c :: tail)) :: (indent ++ ['^'])
        :: (strays.map note).map String.toList ∧
    indent.length = ((gutter token.span.line).toList ++ head).length ∧ '^' ∉ indent

theorem padLeft_gutter (line : Nat) :
    Text.padLeft ((toString line).length + 2) ' ' (toString line) ++ " | " = gutter line := by
  rw [gutter, Text.padLeft, Nat.add_sub_cancel_left]
  rfl

/-- The mark stands as far to the right as the gutter and the columns before a column reach. -/
theorem length_margin (line : Nat) (head : List Char) :
    (margin line (head.length + 1)).toList.length = ((gutter line).toList ++ head).length := by
  have hdigits : line.repr.length = (Nat.toDigits 10 line).length := by
    rw [← Nat.toList_repr, String.length_toList]
  simp [margin, gutter, Text.spaces, Text.fill, hdigits]
  omega

theorem caret_notMem_margin (line column : Nat) : '^' ∉ (margin line column).toList := by
  simp +decide [margin, Text.spaces, Text.fill]

/-- The error is at no column, or at one that a mark can be set below. -/
def Markable (e : Error) : Prop :=
  ∀ fault line column context, e.cause = .syntactic fault line column context → column ≤ 65536

/-- A report can be laid out exactly if its mark is in reach. -/
theorem fits_iff {e : Error} : fits e.cause = true ↔ Markable e := by
  rw [Markable]
  cases hcause : e.cause with
  | syntactic fault line column context =>
    rw [fits, Text.widest, decide_eq_true_iff]
    constructor
    · rintro h _ _ _ _ heq
      cases heq
      omega
    · intro h
      have hcolumn := h fault line column context rfl
      omega
  | _ => exact iff_of_true rfl nofun

/-- An error in reach has a report. -/
theorem errorReport?_of_markable {e : Error} (h : Markable e) (origin : String) :
    errorReport? origin e = some (errorReport origin e) :=
  if_pos (fits_iff.mpr h)

/-- The report of a syntax error, line by line. -/
theorem errorReport_eq (origin : String) (fault : SyntaxFault) (line column : Nat)
    (context : String) (strays : List Stray) :
    errorReport origin ⟨.syntactic fault line column context, strays⟩
      = headline origin line column (.syntactic fault line column context)
        ++ String.join (((gutter line ++ context) :: (margin line column ++ "^")
          :: strays.map note).map ("\n" ++ ·)) := by
  have hnotes : (fun stray : Stray => "\nnote: " ++ stray.message) = ("\n" ++ ·) ∘ note := by
    funext stray
    rw [Function.comp_apply, note, ← String.append_assoc]
    rfl
  rw [← padLeft_gutter, errorReport, causeReport, excerpt, hnotes]
  simp only [List.map_cons, List.map_map, String.join_cons, String.append_assoc, margin, headline]
  rfl

/-- The line with the origin, the place and the fault is one line. -/
theorem oneLine_headline {origin context : String} {fault : SyntaxFault} (horigin : OneLine origin)
    (hfault : OneLine fault.message) (line column : Nat) :
    OneLine (headline origin line column (.syntactic fault line column context)) := by
  have hline := Text.oneLine_repr line
  have hcolumn := Text.oneLine_repr column
  have hmessage : OneLine (Cause.syntactic fault line column context).message := by
    unfold Cause.message
    simp only [Text.oneLine_append]
    exact ⟨⟨⟨⟨⟨by decide, hline⟩, by decide⟩, hcolumn⟩, by decide⟩, hfault⟩
  unfold headline
  simp only [Text.oneLine_append]
  exact ⟨⟨⟨⟨⟨⟨horigin, by decide⟩, hline⟩, by decide⟩, hcolumn⟩, by decide⟩, hmessage⟩

/-- The lines of the report of a syntax error: nothing in it breaks them up. -/
theorem splitOn_errorReport {origin context : String} {fault : SyntaxFault}
    (horigin : OneLine origin) (hfault : OneLine fault.message) (hcontext : OneLine context)
    (line column : Nat) (strays : List Stray) :
    (errorReport origin ⟨.syntactic fault line column context, strays⟩).toList.splitOn '\n'
      = (headline origin line column (.syntactic fault line column context)
        :: (gutter line ++ context) :: (margin line column ++ "^")
        :: strays.map note).map String.toList := by
  have hgutter : OneLine (gutter line) := by
    simp +decide [gutter]
  have hmark : OneLine (margin line column ++ "^") := by
    simp +decide [margin, Text.oneLine_spaces]
  have hnotes : ∀ s ∈ strays.map note, OneLine s := by
    rw [List.forall_mem_map]
    exact fun s _ => Text.oneLine_append.mpr ⟨by decide, s.oneLine_message⟩
  rw [errorReport_eq]
  refine Text.splitOn_join ?_
  simp only [List.forall_mem_cons]
  exact ⟨oneLine_headline horigin hfault line column, Text.oneLine_append.mpr ⟨hgutter, hcontext⟩,
    hmark, hnotes⟩

/-- The report of a fault at a token points at the token, and has a note for each stray
character. -/
theorem pointsAt_errorReport {origin source : String} {token : Token} {fault : SyntaxFault}
    (horigin : OneLine origin) (hfault : OneLine fault.message)
    (hmem : token ∈ (Scan.ofSource source).tokens) (strays : List Stray) :
    PointsAt (errorReport origin ⟨.syntactic fault token.span.line token.span.column
      (token.span.lineText source), strays⟩) source token strays := by
  obtain ⟨head, c, tail, honLine, hcolumn, hcontext⟩ := Scan.exists_onLine hmem
  have hlines := splitOn_errorReport horigin hfault (Span.oneLine_lineText token.span source)
    token.span.line token.span.column strays
  have hshown : (token.span.lineText source).toList = head ++ c :: tail := by
    rw [hcontext, String.toList_ofList]
  simp only [List.map_cons, String.toList_append, hshown] at hlines
  refine ⟨head, c, tail, honLine, _, _, hlines, ?_, caret_notMem_margin _ _⟩
  rw [hcolumn]
  exact length_margin _ _

/-- The report of a syntax error points at the token that is refused: the first one that fits no
program. It stands at the place of the error, and the report shows its line, marks its first
character there, and tells the strays of the error and nothing else. Up to column 65536 the report
can be laid out. -/
theorem report_points_at_token {origin source context : String} {fault : SyntaxFault}
    {line column : Nat} {strays : List Stray} (horigin : OneLine origin)
    (h : Program.parse source = .error ⟨.syntactic fault line column context, strays⟩) :
    ∃ before token after, Program.tokensOf source = before ++ token :: after ∧
      Viable (before.map Token.kind) ∧ ¬ Viable ((before ++ [token]).map Token.kind) ∧
      token.span.line = line ∧ token.span.column = column ∧
      PointsAt (errorReport origin ⟨.syntactic fault line column context, strays⟩) source token
        strays ∧
      (column ≤ 65536 → errorReport? origin ⟨.syntactic fault line column context, strays⟩
        = some (errorReport origin ⟨.syntactic fault line column context, strays⟩)) := by
  obtain ⟨fault', rest, hprogram, hcause⟩ := Program.program_of_parse_eq_error h
  cases fault' with
  | atEnd expected => cases hcause
  | inconsistent i => cases hcause
  | «at» fault' token =>
    cases hcause
    obtain ⟨before, after, htokens, hviable, hmisfit⟩ :=
      outline_at (outline_of_program_eq_error hprogram nofun)
    have hmem : token ∈ (Scan.ofSource source).tokens := by
      rw [← Program.tokensOf_eq, htokens]
      exact List.mem_append_cons_self
    have hfault : OneLine fault.message :=
      Parser.brief_program hprogram (TokenKind.oneLine_display (Scan.legible_of_mem_tokens hmem))
    refine ⟨before, token, after, htokens, hviable, hmisfit, rfl, rfl,
      pointsAt_errorReport horigin hfault hmem strays, fun hcolumn => ?_⟩
    refine errorReport?_of_markable ?_ origin
    rintro _ _ _ _ heq
    cases heq
    exact hcolumn

/-- A token behind a stray and a tabulator on a line that a return ends. -/
theorem report_points_at_token_behind_stray :
    let source := "// ñ\r\n@ luchador Ñu\t; ?\r\n"
    let error : Error := ⟨.syntactic (.mismatch "'\x7b'" (.symbol .semicolon)) 2 15
      "@ luchador Ñu\t; ?", [⟨'@', 2, 1⟩]⟩
    OneLine "pelea.txt" ∧ Program.parse source = .error error ∧
      ∃ before token after, Program.tokensOf source = before ++ token :: after ∧
        Viable (before.map Token.kind) ∧ ¬ Viable ((before ++ [token]).map Token.kind) ∧
        token.span.line = 2 ∧ token.span.column = 15 ∧
        PointsAt (errorReport "pelea.txt" error) source token error.strays ∧
        errorReport? "pelea.txt" error = some (errorReport "pelea.txt" error) := by
  intro source error
  have horigin : OneLine "pelea.txt" := by decide
  have hparse : Program.parse source = .error error := by
    simp only [source, error]
    rfl
  obtain ⟨before, token, after, htokens, hviable, hmisfit, hline, hcolumn, hpoints, hreport⟩ :=
    report_points_at_token horigin hparse
  exact ⟨horigin, hparse, before, token, after, htokens, hviable, hmisfit, hline, hcolumn, hpoints,
    hreport (by decide)⟩

/-- The mark below the semicolon, with the tabulator before it shown as it is. -/
example : errorReport "pelea.txt" ⟨.syntactic (.mismatch "'\x7b'" (.symbol .semicolon)) 2 15
      "@ luchador Ñu\t; ?", [⟨'@', 2, 1⟩]⟩
    = "pelea.txt:2:15: syntax error at 2:15: expected '\x7b', found ';'\n"
      ++ "  2 | @ luchador Ñu\t; ?\n    |               ^\n"
      ++ "note: unrecognized character '@' at 2:1" := by
  decide +kernel

end Report

end Lucha
