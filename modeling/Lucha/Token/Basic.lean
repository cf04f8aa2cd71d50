import Lucha.Source.Span
import Lucha.Token.Keyword

/-!
# Tokens

What a fight program is made of once blanks and comments are gone: reserved words, symbols,
identifiers and numerals, and at last the end of the text. A token is one of these with the span it
covers.
-/

namespace Lucha

/-- A punctuation mark or a relational operator. -/
inductive Symbol where
  | openBrace | closeBrace | openParen | closeParen | comma | semicolon | colon | assign | dot
  | less | greater | atMost | atLeast | equal | unequal
deriving DecidableEq

namespace Symbol

/-- The spelling of a symbol. -/
def text : Symbol → String
  | openBrace => "\x7b"
  | closeBrace => "\x7d"
  | openParen => "("
  | closeParen => ")"
  | comma => ","
  | semicolon => ";"
  | colon => ":"
  | assign => "="
  | dot => "."
  | less => "<"
  | greater => ">"
  | atMost => "<="
  | atLeast => ">="
  | equal => "=="
  | unequal => "!="

/-- The symbol of a single character. -/
def ofChar? : Char → Option Symbol
  | '\x7b' => some openBrace
  | '\x7d' => some closeBrace
  | '(' => some openParen
  | ')' => some closeParen
  | ',' => some comma
  | ';' => some semicolon
  | ':' => some colon
  | '=' => some assign
  | '.' => some dot
  | '<' => some less
  | '>' => some greater
  | _ => none

/-- The symbol of a character and an equals sign after it. -/
def ofCharEquals? : Char → Option Symbol
  | '<' => some atMost
  | '>' => some atLeast
  | '=' => some equal
  | '!' => some unequal
  | _ => none

/-- Whether a symbol compares two numbers. -/
def isRelational : Symbol → Bool
  | less | greater | atMost | atLeast | equal | unequal => true
  | _ => false

end Symbol

/-- What a token is, apart from its place. -/
inductive TokenKind where
  | keyword (word : Keyword)
  | symbol (mark : Symbol)
  /-- A name, spelled as in the source. -/
  | ident (name : String)
  /-- The value of a numeral. -/
  | number (value : Nat)
  | endOfInput
deriving DecidableEq

namespace TokenKind

/-- The kind of thing a token is, for messages; a name or a numeral is not spelled out. -/
def name : TokenKind → String
  | keyword word => "'" ++ word.text ++ "'"
  | symbol mark => "'" ++ mark.text ++ "'"
  | ident _ => "identifier"
  | number _ => "integer"
  | endOfInput => "end of input"

/-- A token as messages show it. -/
def display : TokenKind → String
  | ident name => "identifier '" ++ name ++ "'"
  | number value => "integer " ++ toString value
  | kind => kind.name

/-- Whether a token compares two numbers. -/
def isRelational : TokenKind → Bool
  | symbol mark => mark.isRelational
  | _ => false

end TokenKind

/-- A token and the span it covers. -/
structure Token where
  kind : TokenKind
  span : Span
deriving DecidableEq

end Lucha
