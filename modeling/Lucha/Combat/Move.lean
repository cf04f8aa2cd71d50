import Lucha.Combat.Event
import Lucha.Combat.Rules

/-!
# Moves

A `Move` is what a fighter does with its turn: the deeds, and the turn after them. Names become
moves by `resolve`: a combo is looked for first, then an action. A combo that is paid for does
all its steps; one that cannot be paid for falls back to its first step. Three guards end what
would not end by itself: a turn has a budget of combos, combos are nested so many levels and no
more, and a chain of fallbacks does not come back to a combo on it.
-/

namespace Lucha.Combat

/-- A turn under way. -/
structure Turn where
  /-- The contender whose turn it is. -/
  actor : Contender
  /-- The other contender. -/
  target : Contender
  /-- Combos that may still be entered. -/
  combosLeft : Nat
  /-- Whether a combo was refused because none may be entered any more. Nothing follows then. -/
  exhausted : Bool
deriving DecidableEq

/-- The contender that a condition is about. -/
def Turn.subject (t : Turn) : Subject → Contender
  | .actor => t.actor
  | .opponent => t.target

/-- Whether a condition holds. -/
def Turn.satisfies (t : Turn) (c : Condition) : Bool :=
  c.holdsFor ((t.subject c.subject).value c.stat)

/-- The deeds that a turn goes on with, and the turn after them. -/
abbrev Move := Turn → List Deed × Turn

namespace Move

/-- Doing nothing. -/
def rest : Move := fun t => ([], t)

/-- A single deed that changes nothing. -/
def only (deed : Deed) : Move := fun t => ([deed], t)

/-- One move and then another. -/
def andThen (first second : Move) : Move := fun t =>
  let (deeds, t) := first t
  let (more, t) := second t
  (deeds ++ more, t)

/-- Moves one after the other. -/
def all : List Move → Move
  | [] => rest
  | first :: others => first.andThen (all others)

/-- Using an action. -/
def act (action : Action) : Move := fun t =>
  if action.isBlock then ([.useBlock action.name], t)
  else
    match t.actor.pay? action.cost with
    | none => ([.failAction action.name action.cost t.actor.stamina], t)
    | some actor =>
      let target := t.target.hurt action.damage
      ([.applyAction target.name action.name action.kind (t.target.loss action.damage) action.cost
          target.hp actor.stamina],
        { t with actor, target })

/-- Entering a combo, which the budget of the turn must allow. -/
def enter (combo : Combo) (inside : Move) : Move := fun t =>
  match t.combosLeft with
  | 0 => ([.abortCombo combo.name .budget], { t with exhausted := true })
  | left + 1 => inside { t with combosLeft := left }

/-- Doing a combo: all its steps if it is paid for, else the first. `chain` holds the combos
that fell back to this one, and `step` resolves a step below such a chain. -/
def perform (combo : Combo) (chain : List String) (step : List String → String → Move) : Move :=
  fun t =>
    match t.actor.pay? combo.cost with
    | some actor =>
      (only (.executeCombo combo.name combo.cost actor.stamina)).andThen
        (all (combo.steps.map (step []))) { t with actor }
    | none =>
      if combo.name ∈ chain then only (.abortCombo combo.name .cycle) t
      else
        match combo.firstStep? with
        | none => rest t
        | some first =>
          (only (.fallBack combo.name combo.cost t.actor.stamina first)).andThen
            (step (combo.name :: chain) first) t

/-- Using what a name stands for: a combo, for which `ofCombo` says what is done, or else an
action. -/
def named (name : String) (ofCombo : Combo → Move) : Move := fun t =>
  if t.exhausted then rest t
  else
    match t.actor.fighter.combos.find? name with
    | some combo => ofCombo combo t
    | none =>
      match t.actor.fighter.actions.find? name with
      | some action => act action t
      | none => only (.failName name) t

/-- Using what a name stands for, with so many levels of nesting left for combos. -/
def resolve : Nat → List String → String → Move
  | 0, _, name =>
    named name fun combo => enter combo (only (.abortCombo combo.name .depthLimit))
  | levels + 1, chain, name =>
    named name fun combo => enter combo (perform combo chain (resolve levels))

/-- One move or another, by a condition. -/
def branch (condition : Condition) (yes no : Move) : Move := fun t =>
  if t.satisfies condition then yes t else no t

/-- Following a block of instructions, with so many levels of nesting for combos. -/
def follow (levels : Nat) : Block → Move
  | .done => rest
  | .use name _ next => (resolve levels [] name).andThen (follow levels next)
  | .choose condition yes no next =>
    (branch condition (follow levels yes) (follow levels no)).andThen (follow levels next)

end Move

end Lucha.Combat
