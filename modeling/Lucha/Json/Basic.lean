import Lucha.Text.Quote

/-!
# JSON values

JSON values as far as fights are told in them: numbers are natural numbers, and an object keeps its
members in order. `Json.render` writes a value on a single line without spaces; in strings, quotes,
backslashes and control characters are escaped and every other character stands for itself.
-/

namespace Lucha

/-- A JSON value. -/
inductive Json where
  | null
  | flag (value : Bool)
  | number (value : Nat)
  | text (value : String)
  | array (items : List Json)
  | object (members : List (String × Json))

namespace Json

/-- Whether a character is a control character. -/
def isControl (c : Char) : Bool :=
  c.toNat ≤ 0x1f || (0x7f ≤ c.toNat && c.toNat ≤ 0x9f)

/-- A code point in four hexadecimal digits. -/
def hex4 (n : Nat) : List Char :=
  [n / 4096 % 16, n / 256 % 16, n / 16 % 16, n % 16].map Nat.digitChar

/-- A character as it stands in a JSON string. -/
def escape (c : Char) : List Char :=
  if c = '\\' then ['\\', '\\']
  else if c = '"' then ['\\', '"']
  else if c = '\n' then ['\\', 'n']
  else if c = '\r' then ['\\', 'r']
  else if c = '\t' then ['\\', 't']
  else if isControl c then '\\' :: 'u' :: hex4 c.toNat
  else [c]

/-- A string between double quotes. -/
def quote (s : String) : String :=
  "\"" ++ String.ofList (s.toList.flatMap escape) ++ "\""

mutual

/-- A value on one line. -/
def render : Json → String
  | null => "null"
  | flag value => if value then "true" else "false"
  | number value => toString value
  | text value => quote value
  | array items => "[" ++ renderItems items ++ "]"
  | object members => "\x7b" ++ renderMembers members ++ "\x7d"
termination_by structural value => value

/-- Items with commas between them. -/
def renderItems : List Json → String
  | [] => ""
  | item :: rest => item.render ++ (if rest.isEmpty then "" else ",") ++ renderItems rest
termination_by structural items => items

/-- Members with commas between them. -/
def renderMembers : List (String × Json) → String
  | [] => ""
  | (key, value) :: rest =>
    quote key ++ ":" ++ value.render ++ (if rest.isEmpty then "" else ",") ++ renderMembers rest
termination_by structural members => members

end

end Json

end Lucha
