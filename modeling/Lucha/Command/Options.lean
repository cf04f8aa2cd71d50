import Lucha.Report.Rendering

/-!
# Options of the command line

The arguments are read from left to right: flags, options with a value in the argument after
them, and files. The first argument that cannot be read is the error.
-/

namespace Lucha.Command

/-- Why the arguments cannot be followed. -/
inductive UsageError where
  | missingValue (option : String)
  | invalidValue (option value : String)
  | depthTooLarge (value : String)
  | unknownEventType (error : Report.UnknownEventType)
  | unknownOption (argument : String)
  | noFiles
deriving DecidableEq

/-- What is said about arguments that cannot be followed. -/
def UsageError.message : UsageError → String
  | missingValue option => s!"{option} requires a value"
  | invalidValue option value => s!"invalid {option} value: {value}"
  | depthTooLarge value =>
    s!"--max-combo-depth must be at most {Combat.Rules.deepest}, got {value}"
  | unknownEventType error => error.message
  | unknownOption argument => s!"unknown option: {argument}"
  | noFiles => "no input files (see --help)"

/-- What the arguments ask for. -/
structure Options where
  files : List String := []
  help : Bool := false
  version : Bool := false
  /-- Whether programs are described and not fought. -/
  check : Bool := false
  /-- Whether programs are printed and not fought. -/
  pretty : Bool := false
  /-- How fights are told. -/
  rendering : Report.Rendering := {}
  /-- How fights are fought. -/
  rules : Combat.Rules := {}
deriving DecidableEq, Inhabited

/-- A quantity in decimal digits, with an optional plus sign before them. -/
def readQuantity? (text : String) : Option Quantity :=
  let digits := match text.toList with
    | '+' :: digits => digits
    | digits => digits
  if digits.isEmpty || !digits.all Char.isDigit then none
  else Quantity.ofNat? (digits.foldl (fun value digit => 10 * value + (digit.toNat - '0'.toNat)) 0)

/-- The options that take a value. -/
inductive Setting where
  | events | maxComboDepth | maxCombosPerTurn
deriving DecidableEq

namespace Setting

/-- The argument that announces the value. -/
def name : Setting → String
  | events => "--events"
  | maxComboDepth => "--max-combo-depth"
  | maxCombosPerTurn => "--max-combos-per-turn"

/-- The setting that an argument announces. -/
def ofName? (argument : String) : Option Setting :=
  [events, maxComboDepth, maxCombosPerTurn].find? (·.name == argument)

/-- The options with a setting made. -/
def set (o : Options) (value : String) : Setting → Except UsageError Options
  | events =>
    match Report.Filter.ofTypes value with
    | .ok filter => .ok { o with rendering := { o.rendering with filter } }
    | .error error => .error (.unknownEventType error)
  | maxComboDepth =>
    match readQuantity? value with
    | none => .error (.invalidValue maxComboDepth.name value)
    | some depth =>
      if depth ≤ Combat.Rules.deepest then .ok { o with rules := o.rules.withComboDepth depth }
      else .error (.depthTooLarge value)
  | maxCombosPerTurn =>
    match readQuantity? value with
    | none => .error (.invalidValue maxCombosPerTurn.name value)
    | some budget => .ok { o with rules := { o.rules with maxCombosPerTurn := budget } }

end Setting

namespace Options

/-- The options with a flag set, if the argument is one. The flags for more messages change nothing
about what is printed. -/
def withFlag? (o : Options) (argument : String) : Option Options :=
  if argument ∈ ["-h", "--help"] then some { o with help := true }
  else if argument ∈ ["-V", "--version"] then some { o with version := true }
  else if argument ∈ ["-c", "--check"] then some { o with check := true }
  else if argument = "--pretty" then some { o with pretty := true }
  else if argument ∈ ["-j", "--json"] then
    some { o with rendering := { o.rendering with format := .data } }
  else if argument ∈ ["-q", "--quiet"] then
    some { o with rendering := { o.rendering with quiet := true } }
  else if argument ∈ ["-s", "--stats"] then
    some { o with rendering := { o.rendering with showStats := true } }
  else if argument ∈ ["-v", "--verbose", "-vv"] then some o
  else none

/-- The options after more arguments. -/
def read (o : Options) : List String → Except UsageError Options
  | [] => .ok o
  | argument :: rest =>
    match o.withFlag? argument with
    | some o => o.read rest
    | none =>
      match Setting.ofName? argument with
      | some setting =>
        match rest with
        | [] => .error (.missingValue setting.name)
        | value :: rest =>
          match setting.set o value with
          | .ok o => o.read rest
          | .error error => .error error
      | none =>
        if argument.toList.head? = some '-' then .error (.unknownOption argument)
        else { o with files := o.files ++ [argument] }.read rest

/-- The options that some arguments give. -/
def ofArguments (arguments : List String) : Except UsageError Options :=
  ({} : Options).read arguments

end Options

end Lucha.Command
