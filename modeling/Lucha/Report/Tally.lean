import Lucha.Combat.Log
import Lucha.Text.Padding

/-!
# Tallies

A tally adds up, fighter by fighter, what the events of a fight say: turns taken, damage dealt and
taken, stamina spent, and how often each kind of deed was done. Totals stop at the largest quantity.
-/

namespace Lucha.Report

open Combat

/-- What is added up for one fighter. -/
structure Totals where
  turns : Quantity := 0
  damageDealt : Quantity := 0
  damageTaken : Quantity := 0
  staminaSpent : Quantity := 0
  actionsLanded : Quantity := 0
  actionsFailed : Quantity := 0
  combosExecuted : Quantity := 0
  comboFallbacks : Quantity := 0
  combosAborted : Quantity := 0
  blocks : Quantity := 0
  unknownActions : Quantity := 0
deriving DecidableEq

/-- The totals of a fighter after one more of its deeds. -/
def Totals.add (t : Totals) : Deed → Totals
  | .startTurn _ => { t with turns := t.turns + 1 }
  | .applyAction _ _ _ damage cost _ _ =>
    { t with
      actionsLanded := t.actionsLanded + 1
      damageDealt := t.damageDealt.put damage
      staminaSpent := t.staminaSpent.put cost }
  | .failAction .. => { t with actionsFailed := t.actionsFailed + 1 }
  | .executeCombo _ cost _ =>
    { t with combosExecuted := t.combosExecuted + 1, staminaSpent := t.staminaSpent.put cost }
  | .fallBack .. => { t with comboFallbacks := t.comboFallbacks + 1 }
  | .useBlock _ => { t with blocks := t.blocks + 1 }
  | .failName _ => { t with unknownActions := t.unknownActions + 1 }
  | .abortCombo .. => { t with combosAborted := t.combosAborted + 1 }

/-- The totals of a fighter after damage was done to it. -/
def Totals.suffer (t : Totals) (damage : Quantity) : Totals :=
  { t with damageTaken := t.damageTaken.put damage }

/-- The totals of the fighters that some events name. -/
abbrev Tally := Table Totals

namespace Tally

/-- The tally after one more event. -/
def add (tally : Tally) : Event → Tally
  | .deed actor deed =>
    let tally := tally.adjust actor {} (·.add deed)
    match deed with
    | .applyAction target _ _ damage _ _ _ => tally.adjust target {} (·.suffer damage)
    | _ => tally
  | .combatEnd .. => tally

/-- The tally of some events. -/
def ofEvents (events : List Event) : Tally :=
  events.foldl add .empty

/-- The tally of a log. -/
def ofLog (log : Log) : Tally :=
  ofEvents log.events

/-- A row of the table: a name and eight more columns. -/
def row (name : String) (columns : List (Nat × String)) : String :=
  Text.padRight 12 ' ' name
    ++ String.join (columns.map fun column => " " ++ Text.padLeft column.1 ' ' column.2) ++ "\n"

/-- The widths of the columns after the name. -/
def widths : List Nat := [5, 6, 6, 6, 5, 5, 6, 5]

/-- The row of a fighter. -/
def totalsRow (name : String) (t : Totals) : String :=
  let columns := [t.turns, t.damageDealt, t.damageTaken, t.staminaSpent, t.actionsLanded,
    t.actionsFailed, t.combosExecuted, t.blocks]
  row name (widths.zip (columns.map fun column => toString column.toNat))

/-- The tally as a table with a row for each fighter. -/
def text (tally : Tally) : String :=
  let heads := ["turns", "dealt", "taken", "spent", "hits", "fails", "combos", "block"]
  row "fighter" (widths.zip heads)
    ++ String.join (tally.entries.map fun entry => totalsRow entry.1 entry.2)

end Tally

end Lucha.Report
