import Lucha.Token.Scan

/-!
# Errors

An error is a cause with the stray characters that were passed before it. Causes are data; the
wording of each stands in `Cause.message` and in the messages of the faults it holds.
-/

namespace Lucha

/-- Why the tokens of a source text are no program. -/
inductive SyntaxFault where
  /-- Something else was expected where a token was found. -/
  | mismatch (expected : String) (found : TokenKind)
  /-- A numeral is larger than any quantity. -/
  | outOfRange (what : String)
  /-- Conditionals are nested deeper than allowed. -/
  | tooDeep (limit : Nat)
  /-- A fault known by its description only. -/
  | described (text : String)
deriving DecidableEq

/-- What is said about a fault, apart from its place. -/
def SyntaxFault.message : SyntaxFault → String
  | mismatch expected found => s!"expected {expected}, found {found.display}"
  | outOfRange what => s!"integer literal for {what} is out of range"
  | tooDeep limit => s!"conditionals nested deeper than {limit} levels"
  | described text => text

/-- Why a program is inconsistent. -/
inductive SemanticFault where
  | actionTwice (fighter action : String) (firstLine : Nat)
  | comboTwice (fighter combo : String) (firstLine : Nat)
  | fighterTwice (fighter : String) (firstLine : Nat)
  | undeclaredCombatant (name : String)
  | selfFight (name : String)
  | foreignStarter (starter fighterA fighterB : String)
  | noTurns
  /-- A fault known by its description only. -/
  | described (text : String)
deriving DecidableEq

/-- What is said about an inconsistency, apart from its line. -/
def SemanticFault.message : SemanticFault → String
  | actionTwice fighter action firstLine =>
    s!"fighter '{fighter}' declares action '{action}' twice (first at line {firstLine})"
  | comboTwice fighter combo firstLine =>
    s!"fighter '{fighter}' declares combo '{combo}' twice (first at line {firstLine})"
  | fighterTwice fighter firstLine =>
    s!"fighter '{fighter}' is declared twice (first at line {firstLine})"
  | undeclaredCombatant name => s!"combatant '{name}' is not a declared fighter"
  | selfFight name => s!"'{name}' cannot fight itself"
  | foreignStarter starter fighterA fighterB =>
    s!"starting fighter '{starter}' must be '{fighterA}' or '{fighterB}'"
  | noTurns => "turnos_max must be at least 1"
  | described text => text

/-- An inconsistency and the line of the declaration that brings it in. -/
structure Inconsistency where
  fault : SemanticFault
  line : Nat
deriving DecidableEq

/-- Why something failed. -/
inductive Cause where
  /-- The token at a place cannot stand there; `context` is the source line. -/
  | syntactic (fault : SyntaxFault) (line column : Nat) (context : String)
  /-- The text ends where something is expected. -/
  | unexpectedEnd (expected : String)
  /-- The program is inconsistent. -/
  | semantic (inconsistency : Inconsistency)
  /-- A combatant is not among the fighters. -/
  | unknownFighter (name : String)
  /-- A file cannot be read. -/
  | unreadable (path reason : String)
  /-- Something that should not happen. -/
  | unforeseen (text : String)
deriving DecidableEq

/-- What is said about a cause. -/
def Cause.message : Cause → String
  | syntactic fault line column _ => s!"syntax error at {line}:{column}: {fault.message}"
  | unexpectedEnd expected => s!"syntax error: unexpected end of input, expected {expected}"
  | semantic ⟨fault, line⟩ => s!"semantic error at line {line}: {fault.message}"
  | unknownFighter name => s!"unknown fighter: {name}"
  | unreadable path reason => s!"cannot read {path}: {reason}"
  | unforeseen text => s!"internal error: {text}"

/-- The source line a cause points at. -/
def Cause.line? : Cause → Option Nat
  | syntactic _ line _ _ => some line
  | semantic inconsistency => some inconsistency.line
  | _ => none

/-- A cause with the stray characters passed before it. -/
structure Error where
  cause : Cause
  strays : List Stray
deriving DecidableEq

/-- What is said about an error. -/
def Error.message (e : Error) : String :=
  e.cause.message

end Lucha
