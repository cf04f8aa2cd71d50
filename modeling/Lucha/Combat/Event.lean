import Lucha.Combat.Contender

/-!
# Events

What can happen in a fight: the deeds of the fighter whose turn it is, and the end of the fight,
which is nobody's deed. Every event has one of nine types, each with a name.
-/

namespace Lucha.Combat

/-- How a fight ends. -/
inductive Outcome where
  | winner (name : String)
  | tie
deriving DecidableEq

namespace Outcome

/-- The contender with more hit points wins. -/
def between (a b : Snapshot) : Outcome :=
  if b.hp < a.hp then winner a.name
  else if a.hp < b.hp then winner b.name
  else tie

/-- The winner, if there is one. -/
def winner? : Outcome → Option String
  | winner name => some name
  | tie => none

/-- An outcome in words. -/
def text : Outcome → String
  | winner name => name ++ " wins"
  | tie => "tie"

end Outcome

/-- Why a combo is abandoned. -/
inductive AbortReason where
  /-- Falling back led to a combo that has fallen back already. -/
  | cycle
  /-- Combos are nested deeper than the rules allow. -/
  | depthLimit
  /-- More combos are entered in the turn than the rules allow. -/
  | budget
deriving DecidableEq

/-- The name of a reason. -/
def AbortReason.name : AbortReason → String
  | cycle => "cycle"
  | depthLimit => "depth-limit"
  | budget => "budget"

/-- What a fighter does in its turn. -/
inductive Deed where
  /-- It starts its turn. -/
  | startTurn (round : Nat)
  /-- It lands a strike or a kick. -/
  | applyAction (target action : String) (kind : ActionKind)
      (damage cost targetHp actorStamina : Quantity)
  /-- It has too little stamina for an action. -/
  | failAction (action : String) (cost stamina : Quantity)
  /-- It pays for a combo; the steps follow. -/
  | executeCombo (combo : String) (cost actorStamina : Quantity)
  /-- It cannot pay for a combo; its first step follows. -/
  | fallBack (combo : String) (cost stamina : Quantity) (fallback : String)
  /-- It blocks. -/
  | useBlock (action : String)
  /-- It has neither an action nor a combo of a name. -/
  | failName (name : String)
  /-- It abandons a combo. -/
  | abortCombo (combo : String) (reason : AbortReason)
deriving DecidableEq

/-- What happens in a fight. -/
inductive Event where
  /-- The fighter whose turn it is does something. -/
  | deed (actor : String) (deed : Deed)
  /-- The fight is over. -/
  | combatEnd (fighterA fighterB : Snapshot) (outcome : Outcome)
deriving DecidableEq

/-- The types of events. -/
inductive EventType where
  | turnStart | actionApplied | actionFailed | comboExecuted | comboFallback | blockUsed
  | unknownAction | comboAborted | combatEnd
deriving DecidableEq

namespace EventType

/-- The name of a type. -/
def name : EventType → String
  | turnStart => "turn-start"
  | actionApplied => "action-applied"
  | actionFailed => "action-failed"
  | comboExecuted => "combo-executed"
  | comboFallback => "combo-fallback"
  | blockUsed => "block-used"
  | unknownAction => "unknown-action"
  | comboAborted => "combo-aborted"
  | combatEnd => "combat-end"

/-- All types. -/
def all : List EventType :=
  [turnStart, actionApplied, actionFailed, comboExecuted, comboFallback, blockUsed, unknownAction,
    comboAborted, combatEnd]

/-- No type of event is missing from the list of all of them. -/
theorem mem_all (t : EventType) : t ∈ all := by
  cases t <;> decide

/-- The type of a name. -/
def ofName? (name : String) : Option EventType :=
  all.find? (·.name == name)

@[simp]
theorem ofName?_name (t : EventType) : ofName? t.name = some t := by
  cases t <;> decide

end EventType

/-- The type of a deed. -/
def Deed.type : Deed → EventType
  | startTurn .. => .turnStart
  | applyAction .. => .actionApplied
  | failAction .. => .actionFailed
  | executeCombo .. => .comboExecuted
  | fallBack .. => .comboFallback
  | useBlock .. => .blockUsed
  | failName .. => .unknownAction
  | abortCombo .. => .comboAborted

namespace Event

/-- The type of an event. -/
def type : Event → EventType
  | deed _ done => done.type
  | combatEnd .. => .combatEnd

/-- The fighter whose deed an event is. -/
def actor? : Event → Option String
  | deed actor _ => some actor
  | combatEnd .. => none

/-- Whether an event is about a combo. -/
def isAboutCombo (e : Event) : Bool :=
  match e.type with
  | .comboExecuted | .comboFallback | .comboAborted => true
  | _ => false

/-- Whether hit points or stamina change with an event. -/
def changesState (e : Event) : Bool :=
  match e.type with
  | .actionApplied | .comboExecuted => true
  | _ => false

end Event

end Lucha.Combat
