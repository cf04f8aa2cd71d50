import Lucha.Parser.Fighter
import Lucha.Parser.Simulation
import Lucha.Program.Warning

/-!
# Reading programs

    program := fighter+ simulation

`Program.parse` reads the program that a source text holds. `Reading` is a source text of which
some tokens have been taken: after a program or a fault, `Reading.program` goes on from the
token where it stopped. The stray characters of an error are those before that token.
-/

namespace Lucha

namespace Parser

/-- Fighters declared one after the other, added to a library, as long as one more is announced. -/
def fighters (library : Library) : Nat → Parser Library
  | 0 => return library
  | bound + 1 => do
    let library ← consistent (library.declare (← fighter))
    if ← peek (.keyword .luchador) then fighters library bound else return library

/-- Fails unless all tokens are taken. -/
def atEnd : Parser Unit
  | [] => .ok () []
  | tokens => refuse (TokenKind.name .endOfInput) tokens

/-- `program := fighter+ simulation` -/
def program : Parser Program := do
  let library ← fighters .empty ((← get).length + 1)
  let (matchup, scripts) ← simulation
  atEnd
  consistent (Program.assemble library matchup scripts)

end Parser

/-- The cause of an error in a source text. -/
def Fault.cause (source : String) : Fault → Cause
  | «at» fault token =>
    .syntactic fault token.span.line token.span.column (token.span.lineText source)
  | atEnd expected => .unexpectedEnd expected
  | inconsistent inconsistency => .semantic inconsistency

/-- A source text of which some tokens have been taken. -/
structure Reading where
  source : String
  /-- The whole text in pieces. -/
  scan : Scan
  /-- The tokens not yet taken. -/
  ahead : List Token

namespace Reading

/-- A source text of which nothing has been taken. -/
def ofSource (source : String) : Reading :=
  let scan := Scan.ofSource source
  ⟨source, scan, scan.tokens⟩

/-- The stray characters before the next token. -/
def strays (r : Reading) : List Stray :=
  match r.ahead with
  | [] => r.scan.strays
  | token :: _ => r.scan.straysBefore token.span.start

/-- Reads a program. -/
def program (r : Reading) : Except Error Program × Reading :=
  match Parser.program r.ahead with
  | .ok program rest => (.ok program, { r with ahead := rest })
  | .error fault rest =>
    let r := { r with ahead := rest }
    (.error ⟨fault.cause r.source, r.strays⟩, r)

end Reading

/-- The program that a source text holds. -/
def Program.parse (source : String) : Except Error Program :=
  (Reading.ofSource source).program.1

/-- A program with what was noticed about its source text. -/
structure Parsed where
  program : Program
  /-- The stray characters of the text. -/
  strays : List Stray
  warnings : List Warning

/-- Whether nothing was noticed. -/
def Parsed.isClean (p : Parsed) : Bool :=
  p.strays.isEmpty && p.warnings.isEmpty

/-- The program that a source text holds, with what is to be noticed about it. -/
def Parsed.ofSource (source : String) : Except Error Parsed :=
  match (Reading.ofSource source).program with
  | (.ok program, r) => .ok ⟨program, r.strays, program.warnings⟩
  | (.error error, _) => .error error

end Lucha
