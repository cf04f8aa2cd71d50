import Lucha.Proofs.Language
import Lucha.Proofs.Parser.Spans
import Lucha.Proofs.Token.Layout

/-!
# The layout of a program does not matter

A source text may be written once more with the same tokens, other blanks and comments between them
and its reserved words in another case (`Relaid`). The same kinds of tokens are found in it, and a
reader looks at the kinds alone, so it holds the same program up to spans or is refused for the same
reason up to the place (`Program.parse_relaid`).
-/

namespace Lucha

/-- A source text is written once more: a gap, and then each of its tokens with a gap behind it. -/
def Relaid (source source' : String) : Prop :=
  ∃ gap cs, IsGap gap ∧ LaidOut source (Program.tokensOf source) cs ∧ source'.toList = gap ++ cs

theorem Relaid.content_eq {source source' : String} (h : Relaid source source') :
    Text.content source'.toList = ((Program.tokensOf source).map Token.kind).map .inl := by
  obtain ⟨gap, cs, hgap, hcs, htext⟩ := h
  rw [htext, Text.content_gap hgap]
  exact hcs.content_eq fun token htoken => Program.tokensOf_eq source ▸ htoken

/-- Nothing in a source text that is written once more is stray, and it has tokens of the same
kinds. -/
theorem Relaid.scan_eq {source source' : String} (h : Relaid source source') :
    (Scan.ofSource source').tokens.map Token.kind = (Scan.ofSource source).tokens.map Token.kind ∧
      (Scan.ofSource source').strays = [] := by
  obtain ⟨hkinds, hstrays⟩ := Scan.of_content h.content_eq
  rw [Program.tokensOf_eq] at hkinds
  exact ⟨hkinds, hstrays⟩

/-- Two causes are the same up to the places that they name. -/
inductive Cause.Alike : Cause → Cause → Prop
  | syntactic (fault : SyntaxFault) (line line' column column' : Nat) (context context' : String) :
    Alike (.syntactic fault line column context) (.syntactic fault line' column' context')
  | unexpectedEnd (expected : String) : Alike (.unexpectedEnd expected) (.unexpectedEnd expected)
  | semantic {i i' : Inconsistency} (h : i'.eraseLines = i.eraseLines) :
    Alike (.semantic i) (.semantic i')

/-- The same fault up to spans has causes that differ in the places only. -/
theorem Fault.alike_cause {fault fault' : Fault} (h : fault'.eraseSpans = fault.eraseSpans)
    (source source' : String) : (fault.cause source).Alike (fault'.cause source') := by
  cases fault with
  | «at» fault token =>
    cases fault' with
    | «at» fault' token' =>
      obtain ⟨rfl, -⟩ := Fault.at.inj h
      exact .syntactic ..
    | _ => cases h
  | atEnd expected =>
    cases fault' <;> cases h
    exact .unexpectedEnd expected
  | inconsistent i =>
    cases fault' with
    | inconsistent i' => exact .semantic (Fault.inconsistent.inj h)
    | _ => cases h

namespace Program

/-- Two readings come out alike: with the same program up to spans, or with errors that have the
same cause up to places. -/
inductive ReadAlike : Except Error Program → Except Error Program → Prop
  | ok {p p' : Program} (h : p'.eraseSpans = p.eraseSpans) : ReadAlike (.ok p) (.ok p')
  | error {e e' : Error} (h : e.cause.Alike e'.cause) : ReadAlike (.error e) (.error e')

/-- From tokens of the same kinds programs are read alike. -/
theorem readAlike_of_ahead {r r' : Reading}
    (h : r'.ahead.map Token.kind = r.ahead.map Token.kind) :
    ReadAlike r.program.1 r'.program.1 := by
  have herased := Parser.erased_program_congr h
  rw [Reading.program, Reading.program]
  cases hrun : Parser.program r.ahead with
  | ok p rest =>
    cases hrun' : Parser.program r'.ahead with
    | ok p' rest' =>
      rw [hrun, hrun'] at herased
      exact .ok (EStateM.Result.ok.inj herased).1
    | error fault' rest' =>
      rw [hrun, hrun'] at herased
      cases herased
  | error fault rest =>
    cases hrun' : Parser.program r'.ahead with
    | ok p' rest' =>
      rw [hrun, hrun'] at herased
      cases herased
    | error fault' rest' =>
      rw [hrun, hrun'] at herased
      exact .error (Fault.alike_cause (EStateM.Result.error.inj herased).1 _ _)

/-- Source texts with tokens of the same kinds are read alike. -/
theorem readAlike_of_kinds {source source' : String}
    (h : (Scan.ofSource source').tokens.map Token.kind
      = (Scan.ofSource source).tokens.map Token.kind) :
    ReadAlike (parse source) (parse source') := by
  show ReadAlike (Reading.ofSource source).program.1 (Reading.ofSource source').program.1
  exact readAlike_of_ahead h

/-- A source text that is written once more has tokens of the same kinds, nothing stray, and is read
alike. -/
theorem parse_relaid {source source' : String} (h : Relaid source source') :
    (Lexer.tokens source').map Token.kind = (Lexer.tokens source).map Token.kind ∧
      (Lexer.ofSource source').takeRest.2.strays = [] ∧
        ReadAlike (parse source) (parse source') := by
  obtain ⟨hkinds, hstrays⟩ := h.scan_eq
  refine ⟨?_, (Lexer.strays_takeRest source').trans hstrays, readAlike_of_kinds hkinds⟩
  rw [Lexer.tokens_eq, Lexer.tokens_eq, List.map_append, List.map_append, hkinds]
  rfl

/-- A comment, a word in upper case and white space of three sorts. -/
theorem parse_relaid_damage :
    Relaid "daño=3" "//n\nDAÑO\t=\r\n3" ∧
      (Lexer.tokens "//n\nDAÑO\t=\r\n3").map Token.kind
        = (Lexer.tokens "daño=3").map Token.kind ∧
      (Lexer.ofSource "//n\nDAÑO\t=\r\n3").takeRest.2.strays = [] ∧
        ReadAlike (parse "daño=3") (parse "//n\nDAÑO\t=\r\n3") := by
  have htokens : tokensOf "daño=3" = [⟨.keyword .dano, ⟨0, 5, 1, 1⟩⟩,
      ⟨.symbol .assign, ⟨5, 6, 1, 5⟩⟩, ⟨.number 3, ⟨6, 7, 1, 6⟩⟩] := by decide +kernel
  have hgap : IsGap ('/' :: '/' :: ['n'] ++ '\n' :: []) := .comment (by decide) .nil
  have hbody : LaidOut "daño=3" (tokensOf "daño=3")
      (['D', 'A', 'Ñ', 'O'] ++ (['\t'] ++ (['='] ++ (['\r', '\n'] ++ (['3'] ++ ([] ++ [])))))) := by
    rw [htokens]
    refine .cons ?_ (.blank rfl .nil) nofun
      (.cons ?_ (.blank rfl (.blank rfl .nil)) nofun (.cons ?_ .nil (fun _ => rfl) .nil))
    · change ['D', 'A', 'Ñ', 'O'].map lowerLetter = _
      decide +kernel
    · change ['='] = _
      decide +kernel
    · change ['3'] = _
      decide +kernel
  have hrelaid : Relaid "daño=3" "//n\nDAÑO\t=\r\n3" := ⟨_, _, hgap, hbody, by decide +kernel⟩
  exact ⟨hrelaid, parse_relaid hrelaid⟩

end Program

end Lucha
