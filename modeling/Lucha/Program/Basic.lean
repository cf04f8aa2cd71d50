import Lucha.Program.Block
import Lucha.Program.Fighter

/-!
# Programs

A program declares fighters, says who fights whom, who starts and for how many rounds, and gives the
fighters scripts for their turns.
-/

namespace Lucha

/-- What a fighter does in each of its turns. -/
structure Script where
  fighter : String
  body : Block
  span : Span
deriving DecidableEq

/-- Who fights whom, who starts and for how long. -/
structure Matchup where
  fighterA : String
  fighterB : String
  /-- The fighter whose turn is first in every round. -/
  starter : String
  /-- The number of rounds. -/
  maxTurns : Quantity
  span : Span
deriving DecidableEq

namespace Matchup

/-- The fighter whose turn is second in every round. -/
def second (m : Matchup) : String :=
  if m.starter = m.fighterA then m.fighterB else m.fighterA

end Matchup

/-- A fight program. -/
structure Program where
  /-- The fighters under their names. -/
  fighters : Table Fighter
  matchup : Matchup
  /-- The scripts in the order of their declarations. -/
  scripts : List Script
deriving DecidableEq

namespace Program

/-- The script that a fighter follows: of several the last. -/
def scriptFor? (p : Program) (fighter : String) : Option Script :=
  p.scripts.reverse.find? (·.fighter = fighter)

end Program

end Lucha
