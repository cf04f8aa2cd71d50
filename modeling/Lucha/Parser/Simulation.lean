import Lucha.Parser.Basic
import Lucha.Program.Basic

/-!
# Reading simulations

    simulation  := "simulacion" "{" matchup fight "}"
    matchup     := "config" "{" "luchadores" ":" ID "vs" ID ";" "inicia" ":" ID ";"
                   "turnos_max" ":" NUM ";" "}"
    fight       := "pelea" "{" script+ "}"
    script      := "turno" ID block
    block       := "{" instruction+ "}"
    instruction := "usa" ID ";" | "si" "(" condition ")" block ["sino" block]
    condition   := ("self" | "oponente") "." ("hp" | "st") RELOP NUM

Conditionals may be nested so many levels deep and no deeper (`nestingLimit`), so an instruction is
read with the number of levels that are left.
-/

namespace Lucha.Parser

/-- The number of levels that conditionals may be nested. -/
def nestingLimit : Nat := 128

/-- The fighter that a word stands for in a condition. -/
def subjectOf? : Keyword → Option Subject
  | .self => some .actor
  | .oponente => some .opponent
  | _ => none

/-- The quantity that a word stands for in a condition. -/
def statOf? : Keyword → Option Stat
  | .hp => some .hp
  | .st => some .stamina
  | _ => none

/-- The comparison that a token stands for. -/
def comparisonOf? : TokenKind → Option Comparison
  | .symbol .less => some .less
  | .symbol .greater => some .greater
  | .symbol .atMost => some .atMost
  | .symbol .atLeast => some .atLeast
  | .symbol .equal => some .equal
  | .symbol .unequal => some .unequal
  | _ => none

/-- `condition := ("self" | "oponente") "." ("hp" | "st") RELOP NUM` -/
def condition : Parser Condition := do
  let subject ← choice "'self' or 'oponente'" subjectOf?
  let _ ← mark .dot
  let stat ← choice "'hp' or 'st'" statOf?
  let (comparison, _) ← accept "relational operator" comparisonOf?
  let threshold ← number "threshold"
  return { subject, stat, comparison, threshold }

/-- `instruction+`, between braces, with a parser for one instruction. -/
def block (instruction : Parser Instruction) : Parser Block :=
  Block.ofList <$> braced instruction

/-- `"usa" ID ";"` -/
def use : Parser Instruction := do
  let _ ← word .usa
  let (name, span) ← ident "action or combo name"
  let _ ← mark .semicolon
  return .use name span

/-- `"si" "(" condition ")" block ["sino" block]`, with a parser for an instruction in the
blocks. -/
def choose (instruction : Parser Instruction) : Parser Instruction := do
  let _ ← word .si
  let _ ← mark .openParen
  let condition ← condition
  let _ ← mark .closeParen
  let yes ← block instruction
  let no ← if ← skip (.keyword .sino) then block instruction else pure .done
  return .choose condition yes no

/-- One instruction, with a parser for the conditional. -/
def instructionWith (conditional : Parser Instruction) : Parser Instruction := do
  if ← peek (.keyword .usa) then use
  else if ← peek (.keyword .si) then conditional
  else refuse "'usa' or 'si'"

/-- `instruction := "usa" ID ";" | "si" "(" condition ")" block ["sino" block]`, with so many levels
of nesting left. -/
def instruction : Nat → Parser Instruction
  | 0 => instructionWith (refuseFor (.tooDeep nestingLimit))
  | levels + 1 => instructionWith (choose (instruction levels))

/-- `script := "turno" ID block` -/
def script : Parser Script := do
  let span ← word .turno
  let (fighter, _) ← ident "fighter name"
  let body ← block (instruction nestingLimit)
  return { fighter, body, span }

/-- `fight := "pelea" "{" script+ "}"` -/
def fight : Parser (List Script) := do
  let _ ← word .pelea
  braced script

/-- `matchup := "config" "{" "luchadores" ":" ID "vs" ID ";" "inicia" ":" ID ";" "turnos_max"
":" NUM ";" "}"` -/
def matchup : Parser Matchup := do
  let span ← word .config
  let _ ← mark .openBrace
  let _ ← word .luchadores
  let _ ← mark .colon
  let (fighterA, _) ← ident "fighter name"
  let _ ← word .vs
  let (fighterB, _) ← ident "fighter name"
  let _ ← mark .semicolon
  let _ ← word .inicia
  let _ ← mark .colon
  let (starter, _) ← ident "fighter name"
  let _ ← mark .semicolon
  let _ ← word .turnosMax
  let _ ← mark .colon
  let maxTurns ← number "turn limit"
  let _ ← mark .semicolon
  let _ ← mark .closeBrace
  return { fighterA, fighterB, starter, maxTurns, span }

/-- `simulation := "simulacion" "{" matchup fight "}"` -/
def simulation : Parser (Matchup × List Script) := do
  let _ ← word .simulacion
  let _ ← mark .openBrace
  let matchup ← matchup
  let scripts ← fight
  let _ ← mark .closeBrace
  return (matchup, scripts)

end Lucha.Parser
