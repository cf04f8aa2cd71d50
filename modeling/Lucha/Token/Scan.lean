import Lucha.Text.Quote
import Lucha.Token.Piece

/-!
# Scanning a source text

A `Scan` is a source text cut into pieces, each at its position. The tokens and the stray characters
of the text are two views of the scan: its lexemes and its strays, in order. The token that ends the
text stands apart, because it covers nothing.
-/

namespace Lucha

/-- A character that the scan passed over because nothing starts with it. -/
structure Stray where
  char : Char
  /-- Line, counted from one. -/
  line : Nat
  /-- Column in characters, counted from one. -/
  column : Nat
deriving DecidableEq

/-- What is said about a stray character. -/
def Stray.message (s : Stray) : String :=
  s!"unrecognized character {Text.quote s.char} at {s.line}:{s.column}"

/-- A piece and the position where it starts. -/
structure Placed where
  piece : Piece
  position : Position
deriving DecidableEq

namespace Placed

/-- The token of a lexeme. -/
def token? (p : Placed) : Option Token :=
  match p.piece with
  | .lexeme kind text => some ⟨kind, .covering p.position text⟩
  | _ => none

/-- The stray character, if the piece is one. -/
def stray? (p : Placed) : Option Stray :=
  match p.piece with
  | .stray char => some ⟨char, p.position.line, p.position.column⟩
  | _ => none

/-- Pieces placed one after the other. -/
def place (p : Position) : List Piece → List Placed
  | [] => []
  | piece :: rest => ⟨piece, p⟩ :: place (p.after piece.text) rest

end Placed

/-- A source text in pieces. -/
structure Scan where
  /-- The pieces at their positions. -/
  pieces : List Placed
  /-- The position behind the last piece. -/
  stop : Position

namespace Scan

/-- The scan of some characters. -/
def ofChars (cs : List Char) : Scan :=
  ⟨Placed.place .start (Piece.ofChars cs), Position.start.after cs⟩

/-- The scan of a source text. -/
def ofSource (source : String) : Scan :=
  ofChars source.toList

/-- The tokens, without the one that ends the text. -/
def tokens (s : Scan) : List Token :=
  s.pieces.filterMap Placed.token?

/-- The stray characters. -/
def strays (s : Scan) : List Stray :=
  s.pieces.filterMap Placed.stray?

/-- The stray characters before an offset. -/
def straysBefore (s : Scan) (offset : Nat) : List Stray :=
  (s.pieces.filter (·.position.offset < offset)).filterMap Placed.stray?

/-- The token that ends the text. -/
def endToken (s : Scan) : Token :=
  ⟨.endOfInput, .covering s.stop []⟩

end Scan

end Lucha
