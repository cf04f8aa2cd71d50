import Lucha.Combat.Log
import Lucha.Combat.Move
import Lucha.Program.Assembly

/-!
# Fights

A fight goes in rounds. In each round the starter takes its turn and then the other contender; one
without a script takes none. The fight is over when a contender is knocked out at the end of a turn,
or when all rounds are fought. `run` fights the fight of a program and gives its log and its result.
-/

namespace Lucha.Combat

/-- Both contenders, the starter first. -/
structure Pair where
  starter : Contender
  other : Contender
deriving DecidableEq

/-- What both contenders do in their turns; one without a script does nothing. -/
structure Scripts where
  starter : Option Block
  other : Option Block

/-- What came of a turn. -/
structure TurnEnd where
  deeds : List Deed
  actor : Contender
  target : Contender
  /-- Whether the turn was taken and left somebody knocked out. -/
  knockout : Bool

/-- The turn of a contender against another. -/
def takeTurn (rules : Rules) (round : Nat) (script : Option Block) (actor target : Contender) :
    TurnEnd :=
  match script with
  | none => ⟨[], actor, target, false⟩
  | some block =>
    let start : List Deed := if rules.recordTurnStarts then [.startTurn round] else []
    let (deeds, t) := Move.follow rules.comboDepth.toNat block
      ⟨actor, target, rules.maxCombosPerTurn.toNat, false⟩
    ⟨start ++ deeds, t.actor, t.target, t.actor.isKnockedOut || t.target.isKnockedOut⟩

/-- What came of a round. -/
structure RoundEnd where
  events : List Event
  pair : Pair
  /-- Whether the fight is over with this round. -/
  knockout : Bool

/-- A round: the turn of the starter and, unless it ends the fight, the turn of the other. -/
def playRound (rules : Rules) (scripts : Scripts) (round : Nat) (pair : Pair) : RoundEnd :=
  let first := takeTurn rules round scripts.starter pair.starter pair.other
  let events := first.deeds.map (.deed pair.starter.name)
  if first.knockout then ⟨events, ⟨first.actor, first.target⟩, true⟩
  else
    let second := takeTurn rules round scripts.other first.target first.actor
    ⟨events ++ second.deeds.map (.deed pair.other.name), ⟨second.target, second.actor⟩,
      second.knockout⟩

/-- What came of some rounds. -/
structure Ending where
  log : Log
  pair : Pair
  /-- The last round that was begun. -/
  round : Nat
  knockout : Bool

/-- The rounds after a round, up to a number of them, recorded at the end of a log. -/
def playRounds (rules : Rules) (scripts : Scripts) : Nat → Nat → Pair → Log → Ending
  | 0, round, pair, log => ⟨log, pair, round, false⟩
  | left + 1, round, pair, log =>
    let played := playRound rules scripts (round + 1) pair
    let log := log.extend (round + 1) played.events
    if played.knockout then ⟨log, played.pair, round + 1, true⟩
    else playRounds rules scripts left (round + 1) played.pair log

/-- How a fight ended. -/
structure Result where
  fighterA : Snapshot
  fighterB : Snapshot
  outcome : Outcome
  /-- The rounds begun, one that a knockout cut short included. -/
  roundsPlayed : Nat
  knockout : Bool
deriving DecidableEq

/-- What a result says about the fighter of a name. -/
def Result.fighter? (r : Result) (name : String) : Option Snapshot :=
  [r.fighterA, r.fighterB].find? (·.name = name)

/-- A fight that is over. -/
structure Finished where
  log : Log
  result : Result
deriving DecidableEq

/-- Ends a fight between `fighterA` and another: says who won, and records it. -/
def Ending.finish (e : Ending) (fighterA : String) : Finished :=
  let starterIsA := e.pair.starter.name = fighterA
  let a := (if starterIsA then e.pair.starter else e.pair.other).snapshot
  let b := (if starterIsA then e.pair.other else e.pair.starter).snapshot
  let outcome := Outcome.between a b
  ⟨e.log.push e.round (.combatEnd a b outcome), ⟨a, b, outcome, e.round, e.knockout⟩⟩

/-- The fight of a program whose contenders are given. -/
def fight (rules : Rules) (p : Program) (starter other : Fighter) : Finished :=
  let script (name : String) := (p.scriptFor? name).map Script.body
  let scripts : Scripts := ⟨script p.matchup.starter, script p.matchup.second⟩
  let pair : Pair := ⟨.fresh starter, .fresh other⟩
  (playRounds rules scripts p.matchup.maxTurns.toNat 0 pair .empty).finish p.matchup.fighterA

/-- Fights the fight of a program. A program whose combatants are not declared, or that is
inconsistent in another way, cannot be fought. -/
def run (rules : Rules) (p : Program) : Except Cause Finished :=
  let m := p.matchup
  if p.fighters.contains m.fighterA = false then .error (.unknownFighter m.fighterA)
  else if p.fighters.contains m.fighterB = false then .error (.unknownFighter m.fighterB)
  else
    match p.inconsistency? with
    | some inconsistency => .error (.semantic inconsistency)
    | none =>
      match p.fighters.find? m.starter, p.fighters.find? m.second with
      | some starter, some other => .ok (fight rules p starter other)
      | none, _ => .error (.unknownFighter m.starter)
      | _, none => .error (.unknownFighter m.second)

end Lucha.Combat
