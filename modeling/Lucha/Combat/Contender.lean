import Lucha.Program.Block
import Lucha.Program.Fighter

/-!
# Contenders

A contender is a fighter in a fight: the fighter as declared, with the hit points and the
stamina that are left. A `Snapshot` is what is told about a contender.
-/

namespace Lucha.Combat

/-- What is told about a contender at one point of a fight. -/
structure Snapshot where
  name : String
  hp : Quantity
  stamina : Quantity
  hpMax : Quantity
  staminaMax : Quantity
deriving DecidableEq

/-- A snapshot in words. -/
def Snapshot.text (s : Snapshot) : String :=
  s!"{s.name} (hp {s.hp}/{s.hpMax}, st {s.stamina}/{s.staminaMax})"

/-- A fighter in a fight. -/
structure Contender where
  /-- The fighter as declared. -/
  fighter : Fighter
  /-- Hit points left. -/
  hp : Quantity
  /-- Stamina left. -/
  stamina : Quantity
deriving DecidableEq

namespace Contender

/-- A fighter at the start of a fight. -/
def fresh (f : Fighter) : Contender :=
  ⟨f, f.hpMax, f.staminaMax⟩

/-- The name of the fighter. -/
def name (c : Contender) : String :=
  c.fighter.name

/-- What is left of a quantity of the contender. -/
def value (c : Contender) : Stat → Quantity
  | .hp => c.hp
  | .stamina => c.stamina

/-- Whether no hit points are left. -/
def isKnockedOut (c : Contender) : Bool :=
  c.hp = 0

/-- The contender after it paid stamina, if it has enough. -/
def pay? (c : Contender) (cost : Quantity) : Option Contender :=
  (c.stamina.pay? cost).map fun stamina => { c with stamina }

/-- The contender after damage was done to it. -/
def hurt (c : Contender) (damage : Quantity) : Contender :=
  { c with hp := c.hp.take damage }

/-- The hit points that damage takes from the contender. -/
def loss (c : Contender) (damage : Quantity) : Quantity :=
  c.hp - (c.hurt damage).hp

/-- What is told about the contender. -/
def snapshot (c : Contender) : Snapshot :=
  ⟨c.name, c.hp, c.stamina, c.fighter.hpMax, c.fighter.staminaMax⟩

end Contender

end Lucha.Combat
