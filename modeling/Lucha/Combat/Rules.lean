import Lucha.Quantity

/-!
# Rules of a fight

How deep combos may be nested, how many a fighter may enter in one turn, and whether the starts of
turns are recorded. No rules allow more levels of nesting than `Rules.deepest`.
-/

namespace Lucha.Combat

/-- The limits that a fight keeps to, and what it records. -/
structure Rules where
  /-- Levels of combos within combos. -/
  maxComboDepth : Quantity := 32
  /-- Combos that a fighter may enter in one turn. -/
  maxCombosPerTurn : Quantity := 1024
  /-- Whether the start of each turn is recorded. -/
  recordTurnStarts : Bool := true
deriving DecidableEq, Inhabited

namespace Rules

/-- The most levels of combos within combos that any rules allow. -/
def deepest : Quantity := 256

/-- The rules with another limit on nesting. -/
def withComboDepth (r : Rules) (depth : Quantity) : Rules :=
  { r with maxComboDepth := if depth ≤ deepest then depth else deepest }

/-- The levels of combos within combos that the rules allow. -/
def comboDepth (r : Rules) : Quantity :=
  if r.maxComboDepth ≤ deepest then r.maxComboDepth else deepest

/-- Whatever the rules say, combos are nested no deeper than the deepest. -/
theorem comboDepth_le_deepest (r : Rules) : r.comboDepth ≤ deepest := by
  rw [comboDepth]
  split
  · assumption
  · exact UInt32.le_refl _

end Rules

end Lucha.Combat
