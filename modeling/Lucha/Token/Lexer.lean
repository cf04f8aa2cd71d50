import Lucha.Token.Scan

/-!
# Taking tokens one at a time

A `Lexer` hands out the tokens of a source text one by one and keeps the stray characters it passed
on the way. At the end of the text `Lexer.take` gives the token that ends the text again and again;
`Lexer.takeNext?` gives it once and nothing afterwards.
-/

namespace Lucha

/-- A source text whose tokens are taken one at a time. -/
structure Lexer where
  /-- The pieces not yet passed. -/
  ahead : List Placed
  /-- The position of the end of the text. -/
  stop : Position
  /-- The stray characters passed since they were last taken away. -/
  strays : List Stray
  /-- Whether `takeNext?` has given the token that ends the text. -/
  finished : Bool

namespace Lexer

/-- The lexer at the start of a source text. -/
def ofSource (source : String) : Lexer :=
  let scan := Scan.ofSource source
  ⟨scan.pieces, scan.stop, [], false⟩

/-- The first token among some pieces, the strays before it and the pieces behind it. -/
def seek : List Placed → Option Token × List Stray × List Placed
  | [] => (none, [], [])
  | first :: rest =>
    match first.token? with
    | some token => (some token, [], rest)
    | none =>
      let (token, strays, behind) := seek rest
      (token, first.stray?.toList ++ strays, behind)

/-- Takes the next token. -/
def take (l : Lexer) : Token × Lexer :=
  let (token, strays, behind) := seek l.ahead
  (token.getD ⟨.endOfInput, .covering l.stop []⟩,
    { l with ahead := behind, strays := l.strays ++ strays })

/-- Takes the next token unless `takeNext?` has already given the last one. -/
def takeNext? (l : Lexer) : Option Token × Lexer :=
  if l.finished then (none, l)
  else
    let (token, rest) := l.take
    (some token, { rest with finished := token.kind = .endOfInput })

/-- Takes the stray characters away. -/
def takeStrays (l : Lexer) : List Stray × Lexer :=
  (l.strays, { l with strays := [] })

/-- All that `takeNext?` still gives, and the lexer after it. -/
def takeRest (l : Lexer) : List Token × Lexer :=
  go l (l.ahead.length + 1)
where
  /-- What `takeNext?` gives, up to a number of times. -/
  go (l : Lexer) : Nat → List Token × Lexer
    | 0 => ([], l)
    | bound + 1 =>
      match l.takeNext? with
      | (none, l) => ([], l)
      | (some token, l) =>
        let (tokens, l) := go l bound
        (token :: tokens, l)

/-- All tokens of a source text, the one that ends it included. -/
def tokens (source : String) : List Token :=
  (ofSource source).takeRest.1

end Lexer

end Lucha
