import Lucha.Combat.Fight
import Lucha.Json.Basic

/-!
# Fights as data

Records and results as JSON objects. A record has its number, its round and its type before what the
event says for itself; the round of a turn's start is the round of the record and not said twice.
-/

namespace Lucha.Report

open Combat

/-- A quantity as a JSON number. -/
def quantityData (q : Quantity) : Json := .number q.toNat

/-- A contender as a JSON object. -/
def snapshotData (s : Snapshot) : Json :=
  .object [
    ("name", .text s.name),
    ("hp", quantityData s.hp),
    ("stamina", quantityData s.stamina),
    ("hp_max", quantityData s.hpMax),
    ("stamina_max", quantityData s.staminaMax)]

/-- The winner's name, or null where there is no winner. -/
def outcomeData : Outcome → Json
  | .winner name => .text name
  | .tie => .null

/-- What a deed says for itself, the fighter first. -/
def deedMembers (actor : String) : Deed → List (String × Json)
  | .startTurn _ => [("fighter", .text actor)]
  | .applyAction target action kind damage cost targetHp actorStamina => [
    ("actor", .text actor),
    ("target", .text target),
    ("action", .text action),
    ("kind", .text kind.name),
    ("damage", quantityData damage),
    ("cost", quantityData cost),
    ("target_hp", quantityData targetHp),
    ("actor_stamina", quantityData actorStamina)]
  | .failAction action cost stamina => [
    ("actor", .text actor),
    ("action", .text action),
    ("cost", quantityData cost),
    ("stamina", quantityData stamina)]
  | .executeCombo combo cost actorStamina => [
    ("actor", .text actor),
    ("combo", .text combo),
    ("cost", quantityData cost),
    ("actor_stamina", quantityData actorStamina)]
  | .fallBack combo cost stamina fallback => [
    ("actor", .text actor),
    ("combo", .text combo),
    ("cost", quantityData cost),
    ("stamina", quantityData stamina),
    ("fallback", .text fallback)]
  | .useBlock action => [("actor", .text actor), ("action", .text action)]
  | .failName name => [("actor", .text actor), ("name", .text name)]
  | .abortCombo combo reason => [
    ("actor", .text actor),
    ("combo", .text combo),
    ("reason", .text reason.name)]

/-- What an event says for itself. -/
def eventMembers : Event → List (String × Json)
  | .deed actor deed => deedMembers actor deed
  | .combatEnd fighterA fighterB outcome => [
    ("fighter_a", snapshotData fighterA),
    ("fighter_b", snapshotData fighterB),
    ("winner", outcomeData outcome)]

/-- A record as a JSON object. -/
def recordData (r : Record) : Json :=
  .object <| [
    ("id", .number r.id),
    ("round", .number r.round),
    ("type", .text r.event.type.name)] ++ eventMembers r.event

/-- A result as a JSON object. -/
def resultData (r : Result) : Json :=
  .object [
    ("type", .text "result"),
    ("fighter_a", snapshotData r.fighterA),
    ("fighter_b", snapshotData r.fighterB),
    ("winner", outcomeData r.outcome),
    ("rounds_played", .number r.roundsPlayed),
    ("knockout", .flag r.knockout)]

/-- Records as a JSON array, on one line or with a line for each record. -/
def recordsData (pretty : Bool) (rs : List Record) : String :=
  if pretty then
    "[\n  " ++ ",\n  ".intercalate (rs.map fun r => (recordData r).render) ++ "\n]"
  else (Json.array (rs.map recordData)).render

end Lucha.Report
