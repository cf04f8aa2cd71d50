import Lucha.Quantity
import Lucha.Source.Span
import Lucha.Table

/-!
# Fighters

A fighter has hit points, stamina, actions and combos, the last two under their names. An action
is a strike, a kick or a block; a combo is a sequence of names, each of an action or again of a
combo.
-/

namespace Lucha

/-- The kinds of actions. -/
inductive ActionKind where
  | strike | kick | block
deriving DecidableEq

namespace ActionKind

/-- The word that declares actions of a kind. -/
def keyword : ActionKind → String
  | strike => "golpe"
  | kick => "patada"
  | block => "bloqueo"

/-- The name of a kind in the record of a fight. -/
def name : ActionKind → String
  | strike => "strike"
  | kick => "kick"
  | block => "block"

end ActionKind

/-- How high an action aims. -/
inductive Height where
  | high | mid | low
deriving DecidableEq

/-- The word for a height. -/
def Height.keyword : Height → String
  | high => "alta"
  | mid => "media"
  | low => "baja"

/-- The path of an action. -/
inductive Shape where
  | frontal | lateral
deriving DecidableEq

/-- The word for a shape. -/
def Shape.keyword : Shape → String
  | frontal => "frontal"
  | lateral => "lateral"

/-- Something a fighter can do by itself. -/
structure Action where
  kind : ActionKind
  name : String
  /-- Hit points taken from the opponent. -/
  damage : Quantity := 0
  /-- Stamina paid. -/
  cost : Quantity := 0
  height : Option Height := none
  shape : Option Shape := none
  spinning : Bool := false
  span : Span
deriving DecidableEq

/-- Whether an action is a block. -/
def Action.isBlock (a : Action) : Bool :=
  a.kind = .block

/-- A sequence of actions and combos, done for a price. -/
structure Combo where
  name : String
  /-- Stamina paid for the whole sequence. -/
  cost : Quantity
  /-- The names of the actions and combos. -/
  steps : List String
  span : Span
deriving DecidableEq

/-- The step done instead of the combo where the price cannot be paid. -/
def Combo.firstStep? (c : Combo) : Option String :=
  c.steps.head?

/-- A fighter as declared. -/
structure Fighter where
  name : String
  /-- Hit points at the start. -/
  hpMax : Quantity
  /-- Stamina at the start. -/
  staminaMax : Quantity
  actions : Table Action
  combos : Table Combo
  span : Span
deriving DecidableEq

namespace Fighter

/-- Whether a name is one of the fighter's actions or combos. -/
def knows (f : Fighter) (name : String) : Bool :=
  f.combos.contains name || f.actions.contains name

end Fighter

end Lucha
