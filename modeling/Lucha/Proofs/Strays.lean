import Lucha.Proofs.Misfit
import Lucha.Proofs.Parser.Duplicate
import Lucha.Proofs.Program.RoundTrip
import Lucha.Proofs.Token.Passing

/-!
# The strays of an error

The reader of programs looks one token ahead, so what was passed where it stops are the strays
before the token that it would take next. For a syntax error that is the token it refuses, behind a
name that is declared twice the token behind the block or the definition that repeats it
(`StopsAt`), and in all other cases the end of the text. An error has these strays and no others, in
order, and a program that is read has all of them (`Program.strays_kept`).
-/

namespace Lucha

open Grammar (Definition)
open Lucha.Parser (verdict exists_repeats_of_fighters)

/-- Where reading stops for a cause: the tokens that are taken and the one that would be next. -/
inductive StopsAt (taken : List Token) (next : Token) : Cause → Prop
  /-- A token is refused. -/
  | refused (fault : SyntaxFault) (context : String) (h : next.kind ≠ .endOfInput) :
    StopsAt taken next (.syntactic fault next.span.line next.span.column context)
  /-- There are no more tokens. -/
  | atEnd (expected : String) (h : next.kind = .endOfInput) :
    StopsAt taken next (.unexpectedEnd expected)
  /-- Some definitions are taken and what repeats a name behind them. -/
  | repeated {ds : List Definition} {d : Definition} {ls : List Leaf} {i : Inconsistency}
    (h : d.Repeats ds i ls) (hspells : Spells (ds.flatMap Definition.leaves ++ ls) taken []) :
    StopsAt taken next (.semantic i)
  /-- There is a whole program, and it cannot be fought. -/
  | unsound {i : Inconsistency} (hi : ¬ i.fault.IsDuplicate) (h : next.kind = .endOfInput) :
    StopsAt taken next (.semantic i)

namespace Reading

variable {source : String} {taken rest : List Token} {fault : Fault}

/-- The token that a reading would take next. -/
def next (r : Reading) : Token :=
  r.ahead.head?.getD r.scan.endToken

/-- A lexer that is one token ahead of a reading has passed its strays, and they are those before
that token. -/
theorem strays_of_split (h : (Scan.ofSource source).tokens = taken ++ rest) :
    let r : Reading := ⟨source, Scan.ofSource source, rest⟩
    r.strays = ((Lexer.ofSource source).afterTaking (taken.length + 1)).strays ∧
      r.strays = (Scan.ofSource source).strays.filter (·.IsBefore r.next) := by
  cases rest with
  | nil =>
    rw [List.append_nil] at h
    refine ⟨(Lexer.strays_afterTaking_all h).symm, (List.filter_eq_self.mpr fun s hs => ?_).symm⟩
    exact decide_eq_true (Scan.isBefore_endToken hs)
  | cons token later =>
    obtain ⟨before, placed, behind, hpieces, -, hplaced⟩ := Scan.exists_pieces_of_tokens h
    have hstrays := (Scan.straysBefore_start hpieces hplaced).trans
      (Scan.filter_strays hpieces hplaced).symm
    exact ⟨hstrays.trans (Lexer.strays_afterTaking h).symm, hstrays⟩

/-- Where the reader of programs fails it has taken some tokens, and stops for the cause of the
fault. -/
theorem exists_stopsAt (h : Parser.program (Scan.ofSource source).tokens = .error fault rest) :
    ∃ taken, (Scan.ofSource source).tokens = taken ++ rest ∧
      StopsAt taken (next ⟨source, Scan.ofSource source, rest⟩) (fault.cause source) := by
  cases verdict (Scan.ofSource source).tokens with
  | duplicate hfighters _ hprogram =>
    cases h.symm.trans hprogram
    obtain ⟨ds, d, ls, hrepeats, hspells⟩ := exists_repeats_of_fighters hfighters
    obtain ⟨taken, htokens, htaken⟩ := hspells.exists_taken
    exact ⟨taken, htokens, .repeated hrepeats htaken⟩
  | misfit houtline hprogram =>
    cases h.symm.trans hprogram
    have hsteady := Parser.steadyAt_outline houtline
    obtain ⟨taken, happend, hleft, -⟩ := hsteady.rereads
    rw [houtline] at happend hleft
    refine ⟨taken, happend.symm, ?_⟩
    cases fault with
    | «at» fault token =>
      obtain ⟨later, rfl⟩ := List.head?_eq_some_iff.mp hleft
      have hmem : token ∈ (Scan.ofSource source).tokens := by
        rw [← happend]
        exact List.mem_append_cons_self
      exact .refused fault _ (Scan.kind_ne_endOfInput hmem)
    | atEnd expected =>
      obtain rfl : rest = [] := hleft
      exact .atEnd expected rfl
    | inconsistent i => exact absurd houtline hsteady.ne_inconsistent
  | whole _ hprogram =>
    obtain ⟨p, hprogram⟩ | ⟨i, hi, hprogram⟩ := hprogram
    · cases h.symm.trans hprogram
    · cases h.symm.trans hprogram
      exact ⟨_, (List.append_nil _).symm, .unsound hi rfl⟩

/-- If the end of the text is next, no tokens are left. -/
theorem eq_nil_of_next (h : (Scan.ofSource source).tokens = taken ++ rest)
    (hend : (next ⟨source, Scan.ofSource source, rest⟩).kind = .endOfInput) : rest = [] := by
  cases rest with
  | nil => rfl
  | cons token later =>
    have hmem : token ∈ (Scan.ofSource source).tokens := by
      rw [h]
      exact List.mem_append_cons_self
    exact absurd hend (Scan.kind_ne_endOfInput hmem)

/-- The tokens of a source text are those taken, the next one and those behind it. -/
theorem exists_tokens_eq (h : (Scan.ofSource source).tokens = taken ++ rest) :
    ∃ later, Lexer.tokens source
      = taken ++ next ⟨source, Scan.ofSource source, rest⟩ :: later := by
  rw [Lexer.tokens_eq, h, List.append_assoc]
  cases rest with
  | nil => exact ⟨[], rfl⟩
  | cons token later => exact ⟨later ++ [(Scan.ofSource source).endToken], rfl⟩

end Reading

namespace Program

/-- No stray is lost, told twice or invented by reading. A program that is read comes with the
strays that the lexer passes on its way to the end of the text, which stand one behind the other.
Where reading fails some tokens are taken and a next one is looked at. The strays of the error are
those that the lexer has passed when it has taken these tokens, and they are the strays of the text
that stand before the next token; so they are all of them if that is the end of the text. -/
theorem strays_kept (source : String) :
    let all := (Lexer.ofSource source).takeRest.2.strays
    all.Pairwise (fun a b => a.line < b.line ∨ a.line = b.line ∧ a.column < b.column) ∧
    (∀ parsed, Parsed.ofSource source = .ok parsed → parsed.strays = all) ∧
    ∀ error, parse source = .error error →
      ∃ taken next later, Lexer.tokens source = taken ++ next :: later ∧
        StopsAt taken next error.cause ∧
        error.strays = ((Lexer.ofSource source).afterTaking (taken.length + 1)).strays ∧
        error.strays = all.filter (·.IsBefore next) ∧
        (next.kind = .endOfInput → error.strays = all) := by
  rw [Lexer.strays_takeRest]
  refine ⟨Scan.pairwise_strays _, fun parsed h => ?_, fun error h => ?_⟩
  · have hparse : parse source = .ok parsed.program := by
      rw [← Parsed.map_program_ofSource, h]
      rfl
    have heq := Except.ok.inj (h.symm.trans (Parsed.ofSource_of_parse hparse))
    exact congrArg Parsed.strays heq
  · obtain ⟨fault, rest, hprogram, rfl⟩ := exists_of_parse_eq_error h
    rw [tokensOf_eq] at hprogram
    obtain ⟨taken, htokens, hstops⟩ := Reading.exists_stopsAt hprogram
    obtain ⟨later, hall⟩ := Reading.exists_tokens_eq htokens
    obtain ⟨hpassed, hbefore⟩ := Reading.strays_of_split htokens
    refine ⟨taken, _, later, hall, hstops, hpassed, hbefore, fun hend => ?_⟩
    obtain rfl := Reading.eq_nil_of_next htokens hend
    rfl

/-- The strays before the token that is refused are told, and the one behind it is not. -/
example : parse "@ luchador Ana # ; ?"
    = .error ⟨.syntactic (.mismatch "'\x7b'" (.symbol .semicolon)) 1 18 "@ luchador Ana # ; ?",
      [⟨'@', 1, 1⟩, ⟨'#', 1, 16⟩]⟩ :=
  rfl

end Program

end Lucha
