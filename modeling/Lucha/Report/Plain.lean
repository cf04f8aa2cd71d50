import Lucha.Combat.Fight
import Lucha.Text.Padding

/-!
# Fights in words

Records and results as lines for a reader.
-/

namespace Lucha.Report

open Combat

/-- What stands before the words for an event. -/
structure PlainStyle where
  /-- Whether the number of the record does. -/
  showIds : Bool := false
  /-- Whether the round does. -/
  showRounds : Bool := true
deriving DecidableEq, Inhabited

/-- A contender in words. -/
def contenderLine (s : Snapshot) : String :=
  s!"{s.name}: hp {s.hp}/{s.hpMax}, st {s.stamina}/{s.staminaMax}"

/-- A deed of a fighter in words. -/
def deedLine (actor : String) : Deed → String
  | .startTurn round => s!"--- round {round}: {actor} ---"
  | .applyAction target action kind damage cost targetHp actorStamina =>
    s!"  {actor} uses {action} ({kind.name}): {target} takes {damage} (hp {targetHp}), "
      ++ s!"{actor} pays {cost} (st {actorStamina})"
  | .failAction action cost stamina =>
    s!"  {actor} is too tired for {action} (needs {cost}, has {stamina})"
  | .executeCombo combo cost actorStamina =>
    s!"  {actor} launches combo {combo} for {cost} (st {actorStamina})"
  | .fallBack combo cost stamina fallback =>
    s!"  {actor} cannot afford combo {combo} (needs {cost}, has {stamina}), "
      ++ s!"falls back to {fallback}"
  | .useBlock action => s!"  {actor} blocks with {action}"
  | .failName name => s!"  {actor} does not know '{name}'"
  | .abortCombo combo reason => s!"  {actor} abandons combo {combo} ({reason.name})"

/-- An event in words. -/
def eventLine : Event → String
  | .deed actor deed => deedLine actor deed
  | .combatEnd fighterA fighterB outcome =>
    s!"=== combat over: {contenderLine fighterA} | {contenderLine fighterB} | {outcome.text} ==="

namespace PlainStyle

/-- A record in words. -/
def record (style : PlainStyle) (r : Record) : String :=
  let id := if style.showIds then "[" ++ Text.padLeft 4 '0' (toString r.id) ++ "] " else ""
  let round := if style.showRounds then "R" ++ Text.padLeft 2 '0' (toString r.round) ++ " " else ""
  id ++ round ++ eventLine r.event

/-- Records in words, each on a line of its own. -/
def records (style : PlainStyle) (rs : List Record) : String :=
  "\n".intercalate (rs.map style.record)

end PlainStyle

/-- A result in words. -/
def resultLines (r : Result) : String :=
  let verdict := match r.outcome with
    | .winner name => "Winner: " ++ name
    | .tie => "Tie"
  let ending := if r.knockout then ", knockout" else ""
  s!"{contenderLine r.fighterA}\n{contenderLine r.fighterB}\n"
    ++ s!"{verdict} after {r.roundsPlayed} round(s){ending}"

end Lucha.Report
