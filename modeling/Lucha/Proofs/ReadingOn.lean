import Lucha.Proofs.Parser.Depth
import Lucha.Proofs.Program.Layout
import Lucha.Proofs.Strays
import Lucha.Proofs.Token.Resuming

/-!
# Reading one program after another

After a program, or after a fault, a reading can go on. What it finds then does not depend on what
was read before: it comes out as the text from the next token on does by itself, up to places, and
its errors keep the strays that were passed before (`Reading.resumes`). This holds also where the
conditionals that are open are counted (`CountedReading`), because no program and no fault leaves
one open.
-/

namespace Lucha

open Lucha.Parser (outline_of_program_eq_error exists_append_left_program)
open Grammar (Viable misfit_of_outline)
open Program (ReadAlike parse)

/-! ### Readings that go on -/

/-- The reading when it has read so many programs, or failed to. -/
def Reading.afterCalls (r : Reading) : Nat → Reading
  | 0 => r
  | n + 1 => r.program.2.afterCalls n

/-- A reading whose reader counts the conditionals that are open. -/
structure CountedReading extends Reading where
  /-- How many conditionals are open. -/
  depth : Nat

namespace CountedReading

/-- A source text of which nothing has been taken, where no conditional is open. -/
def ofSource (source : String) : CountedReading :=
  ⟨.ofSource source, 0⟩

/-- Reads a program. -/
def program (r : CountedReading) : Except Error Program × CountedReading :=
  match Counting.program ⟨r.depth, r.ahead⟩ with
  | .ok program s => (.ok program, ⟨{ r.toReading with ahead := s.ahead }, s.depth⟩)
  | .error fault s =>
    let reading := { r.toReading with ahead := s.ahead }
    (.error ⟨fault.cause r.source, reading.strays⟩, ⟨reading, s.depth⟩)

/-- The reading when it has read so many programs, or failed to. -/
def afterCalls (r : CountedReading) : Nat → CountedReading
  | 0 => r
  | n + 1 => r.program.2.afterCalls n

/-- With no conditional open a program is read as without counting, and none is open behind it. -/
theorem program_eq (r : Reading) : program ⟨r, 0⟩ = (r.program.1, ⟨r.program.2, 0⟩) := by
  rw [program, Reading.program, Counting.follows_program]
  cases Parser.program r.ahead <;> rfl

/-- Calls made with no conditional open leave none open, however many there are. -/
theorem afterCalls_eq (r : Reading) (n : Nat) : afterCalls ⟨r, 0⟩ n = ⟨r.afterCalls n, 0⟩ := by
  induction n generalizing r with
  | zero => rfl
  | succ n ih => rw [afterCalls, program_eq, ih, Reading.afterCalls]

end CountedReading

namespace Reading

variable {source : String} {taken rest : List Token} {error : Error}

/-! ### What one call leaves -/

/-- A call leaves the source text as it is, and what is behind the tokens that it takes. -/
theorem exists_program_eq (r : Reading) :
    ∃ taken rest, r.ahead = taken ++ rest ∧ r.program.2 = { r with ahead := rest } := by
  obtain ⟨taken, happend⟩ := exists_append_left_program r.ahead
  refine ⟨taken, _, happend.symm, ?_⟩
  rw [program]
  cases Parser.program r.ahead <;> rfl

/-- After some calls there are tokens of the source text that are taken and others that are not. -/
theorem exists_afterCalls_eq (h : (Scan.ofSource source).tokens = taken ++ rest) (n : Nat) :
    ∃ taken' rest', (Scan.ofSource source).tokens = taken' ++ rest' ∧
      afterCalls ⟨source, Scan.ofSource source, rest⟩ n = ⟨source, Scan.ofSource source, rest'⟩ := by
  induction n generalizing taken rest with
  | zero => exact ⟨taken, rest, h, rfl⟩
  | succ n ih =>
    obtain ⟨more, rest', hrest, hleft⟩ := exists_program_eq ⟨source, Scan.ofSource source, rest⟩
    have hsplit : (Scan.ofSource source).tokens = (taken ++ more) ++ rest' := by
      rw [h, List.append_assoc, ← hrest]
    rw [afterCalls, hleft]
    exact ih hsplit

/-- A call that fails for a token of a source text leaves it as the next one. What it has taken
before fits some program, and with this token it does not. -/
structure Refuses (r : Reading) (source : String) (line column : Nat) (context : String)
    (before : List Token) (token : Token) (after : List Token) : Prop where
  ahead_eq : r.ahead = before ++ token :: after
  left_eq : r.program.2.ahead = token :: after
  next_eq : r.program.2.next = token
  line_eq : token.span.line = line
  column_eq : token.span.column = column
  context_eq : token.span.lineText source = context
  viable : Viable (before.map Token.kind)
  misfit : ¬ Viable ((before ++ [token]).map Token.kind)

/-- A call that fails at a token has taken all before that token and nothing of what follows. -/
theorem exists_refuses {r : Reading} {fault : SyntaxFault} {line column : Nat} {context : String}
    {strays : List Stray}
    (h : r.program.1 = .error ⟨.syntactic fault line column context, strays⟩) :
    ∃ before token after, r.Refuses r.source line column context before token after := by
  obtain ⟨before, happend⟩ := exists_append_left_program r.ahead
  cases hrun : Parser.program r.ahead with
  | ok p rest =>
    rw [program, hrun] at h
    cases h
  | error fault rest =>
    have hleft : r.program.2.ahead = rest := by rw [program, hrun]
    rw [program, hrun] at h
    rw [hrun] at happend
    obtain happend : before ++ rest = r.ahead := happend
    cases fault with
    | atEnd expected => cases h
    | inconsistent i => cases h
    | «at» fault token =>
      cases h
      rw [← happend] at hrun
      have houtline := outline_of_program_eq_error hrun fun i => by rintro ⟨⟩
      obtain ⟨hfirst, hviable, hmisfit⟩ := misfit_of_outline houtline
      obtain ⟨after, rfl⟩ := List.head?_eq_some_iff.mp hfirst
      have hnext : r.program.2.next = token := by rw [next, hleft, hfirst, Option.getD_some]
      exact ⟨before, token, after, happend.symm, hleft, hnext, rfl, rfl, rfl, hviable, hmisfit⟩

/-- The strays of an error are those that a lexer has passed that has taken the tokens before the
call and in it, and one more. -/
theorem exists_strays_eq (h : (Scan.ofSource source).tokens = taken ++ rest)
    (herror : (program ⟨source, Scan.ofSource source, rest⟩).1 = .error error) :
    ∃ fault more rest', Parser.program rest = .error fault rest' ∧ rest = more ++ rest' ∧
      error.strays
        = ((Lexer.ofSource source).afterTaking (taken.length + more.length + 1)).strays := by
  obtain ⟨more, happend⟩ := exists_append_left_program rest
  rw [program] at herror
  cases hrun : Parser.program rest with
  | ok p rest' =>
    rw [hrun] at herror
    cases herror
  | error fault rest' =>
    rw [hrun] at herror happend
    obtain rfl : more ++ rest' = rest := happend
    cases herror
    rw [← List.append_assoc] at h
    refine ⟨fault, more, rest', rfl, rfl, ?_⟩
    rw [← List.length_append]
    exact (strays_of_split h).1

/-! ### Calls and texts by themselves -/

/-- A call comes out as the text does by itself that stands behind some front of a source text, up
to places. Its error has the strays of that text's error behind those that were passed before. -/
structure Follows (r : Reading) (source : String) (front back : List Char) : Prop where
  source_eq : source.toList = front ++ back
  /-- The next token begins where the text does. -/
  start_eq : r.next.span.start = width front
  readAlike : ReadAlike (parse (String.ofList back)) r.program.1
  strays : ∀ error error', r.program.1 = .error error → parse (String.ofList back) = .error error' →
    ∃ more, error.strays = r.strays ++ more ∧
      more.map Stray.char = error'.strays.map Stray.char

/-- A call comes out as the text behind the tokens taken before does by itself. -/
theorem exists_follows (h : (Scan.ofSource source).tokens = taken ++ rest) :
    ∃ front back, Follows ⟨source, Scan.ofSource source, rest⟩ source front back := by
  obtain ⟨front, back, hsource, hwidth, hkinds, hlexers⟩ := Lexer.exists_resumed h
  rw [← String.toList_ofList (l := back), ← Scan.ofSource] at hkinds
  refine ⟨front, back, hsource, hwidth.symm, ?_, fun error error' herror herror' => ?_⟩
  · have hahead : rest.map Token.kind
        = (ofSource (String.ofList back)).ahead.map Token.kind := hkinds.symm
    exact Program.readAlike_of_ahead hahead
  · obtain ⟨fault, more, rest', hrun, rfl, hstrays⟩ := exists_strays_eq h herror
    have hfresh := List.nil_append (Scan.ofSource (String.ofList back)).tokens
    obtain ⟨fault', more', rest'', hrun', hback, hstrays'⟩ := exists_strays_eq hfresh.symm herror'
    -- behind the cut as many tokens are taken as in the call
    have hruns := Parser.erased_program_congr hkinds
    rw [hrun, hrun'] at hruns
    have hleft := congrArg List.length (EStateM.Result.error.inj hruns).2
    have hall := congrArg List.length hkinds
    rw [hback] at hall
    simp only [List.length_map, List.length_append] at hleft hall
    have htaken : ([] : List Token).length + more'.length = more.length := by
      rw [List.length_nil]
      omega
    obtain ⟨later, hlater, hchars⟩ := hlexers more.length
    refine ⟨later, ?_, ?_⟩
    · rw [hstrays, hlater, (strays_of_split h).1]
    · rw [hchars, hstrays', htaken]

/-- Reading a source text goes on as if it began where the next token stands. -/
structure Resumes (source : String) (r : Reading) (counted : CountedReading) : Prop where
  /-- No conditional is open before the call. -/
  counted_eq : counted = ⟨r, 0⟩
  /-- No conditional is open behind the call, whether or not it fails, and it comes out the same
  where they are counted. -/
  counted_program_eq : counted.program = (r.program.1, ⟨r.program.2, 0⟩)
  /-- A token that the call fails for is the next one behind it. -/
  refuses : ∀ fault line column context strays,
    r.program.1 = .error ⟨.syntactic fault line column context, strays⟩ →
      ∃ before token after, r.Refuses source line column context before token after
  /-- The call comes out as the rest of the text does by itself. -/
  follows : ∃ front back, r.Follows source front back

/-- Reading goes on after every program and every fault, and after any number of them, as if it
began there: no conditional is left open, a token that is refused is the next one, and each call
comes out as the text from the next token on does by itself. -/
theorem resumes (source : String) (n : Nat) :
    Resumes source ((ofSource source).afterCalls n)
      ((CountedReading.ofSource source).afterCalls n) := by
  have hcounted := CountedReading.afterCalls_eq (ofSource source) n
  have htokens := List.nil_append (Scan.ofSource source).tokens
  obtain ⟨taken, rest, hsplit, hreading⟩ := exists_afterCalls_eq htokens.symm n
  have hreading : (ofSource source).afterCalls n = ⟨source, Scan.ofSource source, rest⟩ := hreading
  refine ⟨hcounted, ?_, fun fault line column context strays herror => ?_, ?_⟩
  · rw [← CountedReading.program_eq, ← hcounted]
    rfl
  · rw [hreading] at herror ⊢
    exact exists_refuses herror
  · rw [hreading]
    exact exists_follows hsplit

/-- The token that a first call refuses is refused again by the next one, which begins with it. -/
example :
    let r := ofSource "# luchador ;"
    r.program.1 = .error ⟨.syntactic (.mismatch "fighter name" (.symbol .semicolon)) 1 12
      "# luchador ;", [⟨'#', 1, 1⟩]⟩ ∧
    r.program.2.program.1 = .error ⟨.syntactic (.mismatch "'luchador'" (.symbol .semicolon)) 1 12
      "# luchador ;", [⟨'#', 1, 1⟩]⟩ :=
  ⟨rfl, rfl⟩

end Reading

end Lucha
