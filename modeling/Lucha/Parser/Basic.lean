import Lucha.Error
import Lucha.Quantity

/-!
# Reading tokens

A `Parser` takes tokens from the front of a list and answers a value or a `Fault`; in either
case the tokens it has not taken remain. No token stands for the end of the text: the list is
empty there. A parser that refuses a token leaves it where it is, so the first token that
remains after a fault is the one that the fault is about.
-/

namespace Lucha

/-- Why reading stopped. -/
inductive Fault where
  /-- A token cannot stand where it does. -/
  | at (fault : SyntaxFault) (token : Token)
  /-- There are no more tokens where something is expected. -/
  | atEnd (expected : String)
  /-- What was read is inconsistent. -/
  | inconsistent (inconsistency : Inconsistency)
deriving DecidableEq

/-- A reader of tokens. -/
abbrev Parser := EStateM Fault (List Token)

namespace Parser

/-- Refuses the next token, because something else is expected. -/
def refuse {α : Type} (expected : String) : Parser α
  | [] => .error (.atEnd expected) []
  | token :: rest => .error (.at (.mismatch expected token.kind) token) (token :: rest)

/-- Refuses the next token, for a fault of its own. -/
def refuseFor {α : Type} (fault : SyntaxFault) : Parser α
  | [] => .error (.atEnd fault.message) []
  | token :: rest => .error (.at fault token) (token :: rest)

/-- Takes the next token if `pick` has an answer to its kind. -/
def accept {α : Type} (expected : String) (pick : TokenKind → Option α) : Parser (α × Span)
  | [] => refuse expected []
  | token :: rest =>
    match pick token.kind with
    | some value => .ok (value, token.span) rest
    | none => refuse expected (token :: rest)

/-- Takes a token of a kind. -/
def expect (kind : TokenKind) : Parser Span :=
  Prod.snd <$> accept kind.name fun found => if found = kind then some () else none

/-- Takes a reserved word. -/
def word (keyword : Keyword) : Parser Span :=
  expect (.keyword keyword)

/-- Takes a symbol. -/
def mark (symbol : Symbol) : Parser Span :=
  expect (.symbol symbol)

/-- Takes a reserved word that `pick` has an answer to. -/
def choice {α : Type} (expected : String) (pick : Keyword → Option α) : Parser α :=
  Prod.fst <$> accept expected fun
    | .keyword keyword => pick keyword
    | _ => none

/-- Takes an identifier. -/
def ident (what : String) : Parser (String × Span) :=
  accept what fun
    | .ident name => some name
    | _ => none

/-- Takes a numeral whose value is a quantity. -/
def number (what : String) : Parser Quantity
  | [] => refuse what []
  | token :: rest =>
    match token.kind with
    | .number value =>
      match Quantity.ofNat? value with
      | some quantity => .ok quantity rest
      | none => refuseFor (.outOfRange what) (token :: rest)
    | _ => refuse what (token :: rest)

/-- Whether the next token is of a kind. -/
def peek (kind : TokenKind) : Parser Bool := fun tokens =>
  .ok (tokens.head?.any (·.kind = kind)) tokens

/-- Takes the next token if it is of a kind, and says whether it is. -/
def skip (kind : TokenKind) : Parser Bool
  | [] => .ok false []
  | token :: rest => if token.kind = kind then .ok true rest else .ok false (token :: rest)

/-- Fails if a declaration is refused. -/
def consistent {α : Type} : Except Inconsistency α → Parser α
  | .ok value => pure value
  | .error inconsistency => throw (.inconsistent inconsistency)

/-! ### Repetition

Repetitions count down from the number of tokens that remain, which is enough because each round
takes a token at least. -/

/-- More items, each after a comma, up to a number of times. -/
def afterCommas {α : Type} (item : Parser α) : Nat → Parser (List α)
  | 0 => return []
  | bound + 1 => do
    if ← skip (.symbol .comma) then
      let first ← item
      let rest ← afterCommas item bound
      return first :: rest
    else return []

/-- Items with commas between them, at least one. -/
def commaSeparated {α : Type} (item : Parser α) : Parser (List α) := do
  let first ← item
  let rest ← afterCommas item (← get).length
  return first :: rest

/-- More items up to a closing brace, up to a number of times. Where no tokens are left, the
item says what is missing. -/
def upToBrace {α : Type} (item : Parser α) : Nat → Parser (List α)
  | 0 => do
    let first ← item
    return [first]
  | bound + 1 => do
    if ← skip (.symbol .closeBrace) then return []
    else
      let first ← item
      let rest ← upToBrace item bound
      return first :: rest

/-- Items between braces, at least one. -/
def braced {α : Type} (item : Parser α) : Parser (List α) := do
  let _ ← mark .openBrace
  let first ← item
  let rest ← upToBrace item (← get).length
  return first :: rest

end Parser

end Lucha
