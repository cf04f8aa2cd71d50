import Lucha.Program.Basic

/-!
# Summaries of programs

How many actions and combos each fighter of a program has, how many scripts there are, and for how
many rounds the fight goes on.
-/

namespace Lucha

/-- What a summary says about a fighter. -/
structure FighterSummary where
  name : String
  /-- The number of actions. -/
  actions : Nat
  /-- The number of combos. -/
  combos : Nat
deriving DecidableEq

/-- What a summary says about a program. -/
structure Summary where
  /-- The fighters in the order of their names. -/
  fighters : List FighterSummary
  /-- The number of scripts. -/
  scripts : Nat
  maxTurns : Quantity
deriving DecidableEq

/-- The summary of a program. -/
def Program.summary (p : Program) : Summary where
  fighters := p.fighters.values.map fun f => ⟨f.name, f.actions.size, f.combos.size⟩
  scripts := p.scripts.length
  maxTurns := p.matchup.maxTurns

namespace Summary

/-- What a summary says about the fighter of a name. -/
def fighter? (s : Summary) (name : String) : Option FighterSummary :=
  s.fighters.find? (·.name = name)

/-- A summary in lines, the last one without its end. -/
def text (s : Summary) : String :=
  let fighters := s.fighters.map fun f => s!"  {f.name}: {f.actions} actions, {f.combos} combos\n"
  s!"fighters: {s.fighters.length}\n" ++ String.join fighters
    ++ s!"turn scripts: {s.scripts}\nmax turns: {s.maxTurns}"

end Summary

end Lucha
