import Lucha.Error
import Lucha.Text.Padding

/-!
# Reports of errors

An error with its origin and, where it has one, its place: a fault of the source text shows the line
with a mark below the column. A note for each stray character follows. The mark stands behind spaces
that are filled up to a width, so there is no report of a fault in a column further to the right
than that (`errorReport?`).
-/

namespace Lucha.Report

/-- The source line with its number, and a mark below a column. This is the text as it is laid out
where the mark can be moved so far; `errorReport?` says where that is. -/
def excerpt (line column : Nat) (context : String) : String :=
  let number := toString line
  let gutter := number.length + 2
  Text.padLeft gutter ' ' number ++ " | " ++ context ++ "\n"
    ++ Text.spaces gutter ++ " | " ++ Text.spaces (column - 1) ++ "^"

/-- What is reported about the cause of an error. -/
def causeReport (origin : String) (cause : Cause) : String :=
  match cause with
  | .syntactic _ line column context =>
    s!"{origin}:{line}:{column}: {cause.message}\n" ++ excerpt line column context
  | .semantic inconsistency => s!"{origin}:{inconsistency.line}: {cause.message}"
  | .unreadable .. => cause.message
  | _ => s!"{origin}: {cause.message}"

/-- What is reported about an error, laid out. -/
def errorReport (origin : String) (e : Error) : String :=
  causeReport origin e.cause ++ String.join (e.strays.map fun stray => "\nnote: " ++ stray.message)

/-- A report can be laid out if it sets no mark, or if the spaces before the mark are no wider than
a text can be filled up to. -/
def fits (cause : Cause) : Bool :=
  match cause with
  | .syntactic _ _ column _ => decide (column - 1 ≤ Text.widest)
  | _ => true

/-- What is reported about an error. If the report cannot be laid out there is none, and the program
breaks off. -/
def errorReport? (origin : String) (e : Error) : Option String :=
  if fits e.cause then some (errorReport origin e) else none

end Lucha.Report
