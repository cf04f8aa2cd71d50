import Lucha.Combat.Log
import Lucha.Text.Blank

/-!
# Filters

A filter lets the records of some types and of some fighters pass. Where no type is named, every
type passes, and where no fighter is named, every fighter; an event that is nobody's deed passes
for every fighter.
-/

namespace Lucha.Report

open Combat

/-- A set of names. -/
abbrev NameSet := Table Unit

/-- The types and the fighters whose records pass. -/
structure Filter where
  /-- The names of the types; none for all types. -/
  types : NameSet := .empty
  /-- The fighters; none for all fighters. -/
  fighters : NameSet := .empty
deriving DecidableEq, Inhabited

/-- A name that is not the name of an event type. -/
structure UnknownEventType where
  name : String
deriving DecidableEq

/-- What is said about a name that is not the name of an event type. -/
def UnknownEventType.message (e : UnknownEventType) : String :=
  s!"unknown event type '{e.name}' (expected one of: "
    ++ ", ".intercalate (EventType.all.map EventType.name) ++ ")"

namespace Filter

/-- The filter that also lets the type of a name pass. -/
def withType (f : Filter) (name : String) : Except UnknownEventType Filter :=
  match EventType.ofName? name with
  | some type => .ok { f with types := f.types.insert type.name () }
  | none => .error ⟨name⟩

/-- The filter that also lets the deeds of a fighter pass. -/
def withFighter (f : Filter) (name : String) : Filter :=
  { f with fighters := f.fighters.insert name () }

/-- The names in a list with commas between them, without the white space around them. -/
def namesIn (list : String) : List String :=
  ((Text.splitAt ',' list.toList).map Text.trim).filterMap fun name =>
    if name.isEmpty then none else some (String.ofList name)

/-- The filter that lets the types pass whose names are listed. -/
def ofTypes (list : String) : Except UnknownEventType Filter :=
  (namesIn list).foldlM withType {}

/-- Whether everything passes. -/
def isEmpty (f : Filter) : Bool :=
  f.types.size = 0 && f.fighters.size = 0

/-- Whether a record passes. -/
def passes (f : Filter) (r : Record) : Bool :=
  (f.types.size = 0 || f.types.contains r.event.type.name)
    && (f.fighters.size = 0 || r.event.actor?.all f.fighters.contains)

/-- The records that pass, in their order. -/
def apply (f : Filter) (records : List Record) : List Record :=
  records.filter f.passes

end Filter

end Lucha.Report
