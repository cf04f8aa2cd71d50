import Lucha.Text.Shapeless

/-!
# Quoted characters

A character as messages show it: between single quotes, with a backslash form for the quote, the
backslash, the common controls and everything that has no shape of its own.
-/

namespace Lucha.Text

/-- A number in lower-case hexadecimal digits, without leading zeros. -/
def hex (n : Nat) : String :=
  String.ofList (Nat.toDigits 16 n)

/-- A character as it stands between single quotes. -/
def quoteBody (c : Char) : String :=
  if c = '\x00' then "\\0"
  else if c = '\t' then "\\t"
  else if c = '\r' then "\\r"
  else if c = '\n' then "\\n"
  else if c = '\'' then "\\'"
  else if c = '\\' then "\\\\"
  else if isShapeless c then "\\u\x7b" ++ hex c.toNat ++ "\x7d"
  else c.toString

/-- A character between single quotes. -/
def quote (c : Char) : String :=
  "'" ++ quoteBody c ++ "'"

end Lucha.Text
