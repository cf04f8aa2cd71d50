import Lucha.Proofs.Language
import Lucha.Proofs.Parser.Verdict
import Lucha.Proofs.Token.Cut

/-!
# Syntax errors stand at the first token that fits no program

Tokens are *viable* when some program begins with tokens of their kinds, and *unfinished* when that
program has more of them. What the outline of a program takes before it fails is viable, and with
the token it refuses it is not (`outline_at`); where it finds no more tokens they are unfinished
(`outline_atEnd`). No program begins with another (`eq_nil_of_outline_append`), so a source text
that is cut behind one of its tokens but the last holds no program, and is found to end too early.
-/

namespace Lucha

open Grammar (Tree)
open Lucha.Parser (outline steadyAt_outline outline_eq_ok_iff outline_of_program_eq_error verdict
  fighters_append program_of_fighters_eq_error)

variable {ts rest : List Token} {fault : SyntaxFault} {token : Token}

namespace Grammar

/-- Some program begins with tokens of these kinds. -/
def Viable (kinds : List TokenKind) : Prop :=
  ∃ more, ∃ t : Tree, t.DerivesKinds (kinds ++ more)

/-- Some program begins with tokens of these kinds and has more. -/
def Unfinished (kinds : List TokenKind) : Prop :=
  ∃ more, more ≠ [] ∧ ∃ t : Tree, t.DerivesKinds (kinds ++ more)

/-- The outline accepts tokens of the kinds that the grammar derives. -/
theorem exists_derivesKinds_iff :
    (∃ t : Tree, t.DerivesKinds (ts.map Token.kind)) ↔ outline ts = .ok () [] := by
  rw [outline_eq_ok_iff]
  constructor
  · rintro ⟨t, ht⟩
    obtain ⟨u, -, hu⟩ := ht.exists_derives
    exact ⟨⟨u, hu⟩, rfl⟩
  · rintro ⟨⟨t, ht⟩, -⟩
    exact ⟨t, ht.derivesKinds⟩

/-- Kinds are those of some tokens. -/
theorem surjective_map_kind : Function.Surjective (List.map Token.kind) :=
  List.map_surjective_iff.mpr fun kind => ⟨⟨kind, .none⟩, rfl⟩

/-- Kinds of tokens begin a program exactly where more tokens can make the parser, names aside,
accept. -/
theorem viable_iff :
    Viable (ts.map Token.kind) ↔ ∃ more : List Token, outline (ts ++ more) = .ok () [] := by
  rw [Viable, surjective_map_kind.exists]
  simp only [← List.map_append, exists_derivesKinds_iff]

/-- Kinds of tokens begin a longer program exactly where more tokens, one at least, can make the
parser, names aside, accept. -/
theorem unfinished_iff : Unfinished (ts.map Token.kind) ↔
    ∃ more : List Token, more ≠ [] ∧ outline (ts ++ more) = .ok () [] := by
  rw [Unfinished, surjective_map_kind.exists]
  simp only [← List.map_append, exists_derivesKinds_iff, ne_eq, List.map_eq_nil_iff]

/-- No program begins with another. -/
theorem eq_nil_of_outline_append {more : List Token} (h : outline ts = .ok () [])
    (h' : outline (ts ++ more) = .ok () []) : more = [] := by
  obtain ⟨⟨t, ht⟩, -⟩ := outline_eq_ok_iff.mp h
  obtain ⟨⟨u, hu⟩, -⟩ := outline_eq_ok_iff.mp h'
  exact (Tree.unambiguous ht.1 hu.1 (ht.2.append_right more) hu.2).2

/-- Where the outline refuses a token, it stands behind what some program begins with, and no
program goes on with it. -/
theorem misfit_of_outline {before : List Token}
    (h : outline (before ++ rest) = .error (.at fault token) rest) :
    rest.head? = some token ∧ Viable (before.map Token.kind) ∧
      ¬ Viable ((before ++ [token]).map Token.kind) := by
  obtain ⟨⟨taken, happend, hleft, hreread⟩, hcompletes⟩ := steadyAt_outline h
  rw [h] at happend hleft hreread
  obtain rfl := List.append_cancel_right happend
  refine ⟨hleft, ?_, fun hviable => ?_⟩
  · obtain ⟨taken', more, u, htaken, hok⟩ := hcompletes h
    obtain rfl := List.append_cancel_right htaken
    exact viable_iff.mpr ⟨more, hok⟩
  · obtain ⟨more, hok⟩ := viable_iff.mp hviable
    rw [List.append_assoc] at hok
    cases (@hreread (token :: more) rfl).symm.trans hok

/-- Where the outline refuses a token, it has taken what some program begins with, and no program
goes on with the token. -/
theorem outline_at (h : outline ts = .error (.at fault token) rest) :
    ∃ before after, ts = before ++ token :: after ∧ Viable (before.map Token.kind) ∧
      ¬ Viable ((before ++ [token]).map Token.kind) := by
  obtain ⟨⟨before, happend, -⟩, -⟩ := steadyAt_outline h
  rw [h] at happend
  obtain rfl : before ++ rest = ts := happend
  obtain ⟨hleft, hviable, hmisfit⟩ := misfit_of_outline h
  obtain ⟨after, rfl⟩ := List.head?_eq_some_iff.mp hleft
  exact ⟨before, after, rfl, hviable, hmisfit⟩

/-- Where the outline finds no more tokens, some program goes on. -/
theorem outline_atEnd {expected : String} (h : outline ts = .error (.atEnd expected) rest) :
    Unfinished (ts.map Token.kind) := by
  obtain ⟨⟨before, -, hleft, -⟩, hcompletes⟩ := steadyAt_outline h
  rw [h] at hleft
  obtain rfl : rest = [] := hleft
  obtain ⟨taken, more, u, htaken, hok⟩ := hcompletes h
  rw [List.append_nil] at htaken
  subst htaken
  refine unfinished_iff.mpr ⟨more, ?_, hok⟩
  rintro rfl
  rw [List.append_nil] at hok
  cases h.symm.trans hok

/-- Where some program goes on, the outline finds no more tokens. -/
theorem outline_of_unfinished (h : Unfinished (ts.map Token.kind)) :
    ∃ expected rest, outline ts = .error (.atEnd expected) rest := by
  obtain ⟨more, hne, hok⟩ := unfinished_iff.mp h
  cases hrun : outline ts with
  | ok u rest =>
    obtain rfl := (outline_eq_ok_iff.mp hrun).2
    exact absurd (eq_nil_of_outline_append hrun hok) hne
  | error fault rest =>
    have hsteady := steadyAt_outline hrun
    cases fault with
    | atEnd expected => exact ⟨expected, rest, rfl⟩
    | inconsistent i => exact absurd hrun hsteady.ne_inconsistent
    | «at» fault token =>
      obtain ⟨before, after, rfl, -, hmisfit⟩ := outline_at hrun
      refine absurd (viable_iff.mpr ⟨after ++ more, ?_⟩) hmisfit
      rw [← hok]
      simp

end Grammar

open Grammar (Viable Unfinished unfinished_iff outline_at outline_atEnd outline_of_unfinished)

namespace Program

variable {source : String}

/-- A source text that holds no program is refused for what the reader of programs finds. -/
theorem exists_parse_eq_error {fault : Fault} (h : Parser.program (tokensOf source)
    = .error fault rest) : ∃ strays, parse source = .error ⟨fault.cause source, strays⟩ := by
  rw [tokensOf_eq] at h
  refine ⟨Reading.strays ⟨source, Scan.ofSource source, rest⟩, ?_⟩
  simp only [parse, Reading.program, Reading.ofSource, h]

/-- A source text is refused for what the reader of programs finds, with the strays up to where it
stops. -/
theorem exists_of_parse_eq_error {error : Error} (h : parse source = .error error) :
    ∃ fault rest, Parser.program (tokensOf source) = .error fault rest ∧
      error = ⟨fault.cause source, Reading.strays ⟨source, Scan.ofSource source, rest⟩⟩ := by
  rw [parse, Reading.program, Reading.ofSource] at h
  rw [tokensOf_eq]
  cases hrun : Parser.program (Scan.ofSource source).tokens with
  | ok p rest =>
    rw [hrun] at h
    cases h
  | error fault rest =>
    rw [hrun] at h
    cases h
    exact ⟨fault, rest, rfl, rfl⟩

/-- A failure to parse is a failure of the reader of programs, at a place in the source text. -/
theorem program_of_parse_eq_error {error : Error} (h : parse source = .error error) :
    ∃ fault rest, Parser.program (tokensOf source) = .error fault rest ∧
      error.cause = fault.cause source := by
  obtain ⟨fault, rest, hprogram, rfl⟩ := exists_of_parse_eq_error h
  exact ⟨fault, rest, hprogram, rfl⟩

/-- A source text whose tokens some program goes on from ends too early, or declares a name twice
before it ends. -/
theorem parse_of_unfinished (h : Unfinished ((tokensOf source).map Token.kind)) :
    (∃ expected strays, parse source = .error ⟨.unexpectedEnd expected, strays⟩) ∨
      ∃ i rest strays, Parser.fighters .empty ((tokensOf source).length + 1) (tokensOf source)
          = .error (.inconsistent i) rest ∧ i.fault.IsDuplicate ∧
        parse source = .error ⟨.semantic i, strays⟩ := by
  obtain ⟨expected, rest, houtline⟩ := outline_of_unfinished h
  cases verdict (tokensOf source) with
  | duplicate hfighters htwice hprogram =>
    obtain ⟨strays, hparse⟩ := exists_parse_eq_error hprogram
    exact .inr ⟨_, _, strays, hfighters, htwice, hparse⟩
  | misfit houtline' hprogram =>
    cases houtline.symm.trans houtline'
    obtain ⟨strays, hparse⟩ := exists_parse_eq_error hprogram
    exact .inl ⟨expected, strays, hparse⟩
  | whole houtline' => cases houtline.symm.trans houtline'

/-- A source text that is cut behind one of its tokens but the last is found to end too early. -/
theorem parse_of_cut {p : Program} (h : parse source = .ok p) {before after : List Token}
    (htokens : tokensOf source = before ++ token :: after) (hafter : after ≠ []) :
    ∃ front back, source = front ++ back ∧ front.utf8ByteSize = token.span.stop ∧
      ∃ expected strays, parse front = .error ⟨.unexpectedEnd expected, strays⟩ := by
  obtain ⟨t, hderives, -⟩ := parse_eq_ok_iff.mp h
  obtain ⟨front, back, hcut, hsize, hfront⟩ :=
    Scan.exists_front ((tokensOf_eq source).symm.trans htokens)
  have hfront : tokensOf (String.ofList front) = before ++ [token] := by
    rw [tokensOf_eq, Scan.ofSource, String.toList_ofList, hfront]
  have hwhole : tokensOf source = tokensOf (String.ofList front) ++ after := by
    rw [hfront, htokens, List.append_assoc]
    rfl
  have houtline : outline (tokensOf source) = .ok () [] :=
    outline_eq_ok_iff.mpr ⟨⟨t, hderives⟩, rfl⟩
  have hunfinished : Unfinished ((tokensOf (String.ofList front)).map Token.kind) :=
    unfinished_iff.mpr ⟨after, hafter, hwhole ▸ houtline⟩
  refine ⟨String.ofList front, String.ofList back, ?_, hsize, ?_⟩
  · rw [← String.ofList_append, ← hcut, String.ofList_toList]
  · refine (parse_of_unfinished hunfinished).resolve_right ?_
    -- the fighters that are declared twice before the cut are in the whole text as well
    rintro ⟨i, rest, -, hfighters, -⟩
    have hfails := program_of_fighters_eq_error (fighters_append hfighters after)
    rw [← hwhole] at hfails
    obtain ⟨strays, hparse⟩ := exists_parse_eq_error hfails
    cases h.symm.trans hparse

/-- No other token of a source text stands where one does. -/
theorem alone_in_place {before after : List Token}
    (h : tokensOf source = before ++ token :: after) : ∀ other ∈ before ++ after,
      ¬ (other.span.line = token.span.line ∧ other.span.column = token.span.column) := by
  have hpairs := Scan.pairwise_tokens source.toList
  rw [← Scan.ofSource, ← tokensOf_eq, h, List.pairwise_append, List.pairwise_cons] at hpairs
  obtain ⟨-, ⟨hafter, -⟩, hbefore⟩ := hpairs
  intro other hother hplace
  rcases List.mem_append.mp hother with hother | hother
  · have hearlier := hbefore other hother token List.mem_cons_self
    omega
  · have hlater := hafter other hother
    omega

/-- Syntax errors stand at the first token that fits no program. At a syntax error the tokens before
the token that stands there are those some program begins with, and with it they are not. Where a
source text ends too early some program goes on from its tokens; and where some program does, the
text is found to end too early unless it declares a name twice. So it is found to end too early if
it is a text of a program that is cut behind a token but the last. -/
theorem syntax_error_at_first_misfit (source : String) :
    (∀ fault line column context strays,
      parse source = .error ⟨.syntactic fault line column context, strays⟩ →
        ∃ before token after, tokensOf source = before ++ token :: after ∧
          token.span.line = line ∧ token.span.column = column ∧
          (∀ other ∈ before ++ after, ¬ (other.span.line = line ∧ other.span.column = column)) ∧
          Viable (before.map Token.kind) ∧ ¬ Viable ((before ++ [token]).map Token.kind)) ∧
    (∀ expected strays, parse source = .error ⟨.unexpectedEnd expected, strays⟩ →
      Unfinished ((tokensOf source).map Token.kind)) ∧
    (Unfinished ((tokensOf source).map Token.kind) →
      (∃ expected strays, parse source = .error ⟨.unexpectedEnd expected, strays⟩) ∨
        ∃ i strays, parse source = .error ⟨.semantic i, strays⟩ ∧ i.fault.IsDuplicate) ∧
    ∀ p, parse source = .ok p → ∀ before token after,
      tokensOf source = before ++ token :: after → after ≠ [] →
        ∃ front back, source = front ++ back ∧ front.utf8ByteSize = token.span.stop ∧
          ∃ expected strays, parse front = .error ⟨.unexpectedEnd expected, strays⟩ := by
  refine ⟨fun fault line column context strays h => ?_, fun expected strays h => ?_, fun h => ?_,
    fun p h before token after => parse_of_cut h⟩
  · obtain ⟨_ | _ | _, rest, hprogram, hcause⟩ := program_of_parse_eq_error h <;> cases hcause
    obtain ⟨before, after, htokens, hviable, hmisfit⟩ :=
      outline_at (outline_of_program_eq_error hprogram nofun)
    exact ⟨before, _, after, htokens, rfl, rfl, alone_in_place htokens, hviable, hmisfit⟩
  · obtain ⟨_ | _ | _, rest, hprogram, hcause⟩ := program_of_parse_eq_error h <;> cases hcause
    exact outline_atEnd (outline_of_program_eq_error hprogram nofun)
  · obtain hend | ⟨i, -, strays, -, htwice, hparse⟩ := parse_of_unfinished h
    · exact .inl hend
    · exact .inr ⟨i, strays, hparse, htwice⟩

/-- Behind the name of a fighter no program goes on with a semicolon, and every program goes on. -/
example : parse "luchador Ana ;"
      = .error ⟨.syntactic (.mismatch "'\x7b'" (.symbol .semicolon)) 1 14 "luchador Ana ;", []⟩ ∧
    parse "luchador Ana" = .error ⟨.unexpectedEnd "'\x7b'", []⟩ :=
  ⟨rfl, rfl⟩

end Program

end Lucha
