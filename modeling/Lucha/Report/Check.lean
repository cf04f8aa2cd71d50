import Lucha.Parser.Program
import Lucha.Program.Summary

/-!
# Reports of checks

What is told about a program that is not fought: where it is from, its summary, and a line for each
warning and each stray character.
-/

namespace Lucha.Report

/-- What is told about a program from some origin. -/
def checkReport (origin : String) (p : Parsed) : String :=
  let notes := p.warnings.map Warning.message ++ p.strays.map Stray.message
  origin ++ "\n" ++ p.program.summary.text ++ String.join (notes.map ("\nwarning: " ++ ·))

end Lucha.Report
