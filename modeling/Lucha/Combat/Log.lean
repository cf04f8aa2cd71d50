import Lucha.Combat.Event

/-!
# Logs

A log is a list of events with the rounds they happened in. The number of a record is its place
in the log, from zero, so it is not kept in the log but found when the records are listed.
-/

namespace Lucha.Combat

/-- An event with its round and its number. -/
structure Record where
  id : Nat
  round : Nat
  event : Event
deriving DecidableEq

/-- An event with its round. -/
structure Entry where
  round : Nat
  event : Event
deriving DecidableEq

/-- The events of a fight in the order they happened. -/
structure Log where
  entries : Array Entry
deriving DecidableEq

namespace Log

/-- The log of nothing. -/
def empty : Log := ⟨#[]⟩

/-- The number of records. -/
def size (log : Log) : Nat :=
  log.entries.size

/-- The log with one more event, whose number is the size of the log before. -/
def push (log : Log) (round : Nat) (event : Event) : Log :=
  ⟨log.entries.push ⟨round, event⟩⟩

/-- The log with more events of a round. -/
def extend (log : Log) (round : Nat) (events : List Event) : Log :=
  events.foldl (·.push round ·) log

/-- The records. -/
def records (log : Log) : List Record :=
  log.entries.toList.mapIdx fun id entry => ⟨id, entry.round, entry.event⟩

/-- The events. -/
def events (log : Log) : List Event :=
  log.entries.toList.map Entry.event

/-- The last record. -/
def last? (log : Log) : Option Record :=
  log.records.getLast?

/-- The number of events of a type. -/
def count (log : Log) (type : EventType) : Nat :=
  log.events.countP (·.type = type)

/-- The records of a round. -/
def ofRound (log : Log) (round : Nat) : List Record :=
  log.records.filter (·.round = round)

/-- The records of a type. -/
def ofType (log : Log) (type : EventType) : List Record :=
  log.records.filter (·.event.type = type)

end Log

end Lucha.Combat
