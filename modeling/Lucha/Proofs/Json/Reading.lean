import Lucha.Json.Basic

/-!
# Reading JSON texts

A reader for the whole grammar of RFC 8259: white space around the tokens, all escapes with
surrogate pairs, and numbers with fractions and exponents. What it gives back are the values of this
library, so it refuses a text with a number that is no natural number; it does not care how such a
number is written. `decode` reads a text that is one value and nothing else.

Lists and characters are read up to a bound on their number, values up to a bound on their nesting.
Every call is for a later place of the text than the one before, so that no text has more of them
than characters.
-/

namespace Lucha.Json

/-- What reads something at the start of a text and gives the rest of the text with it. -/
abbrev Reader (α : Type) : Type := List Char → Option (α × List Char)

/-- Whether a character is white space. -/
def isBlank (c : Char) : Bool :=
  c = ' ' || c = '\t' || c = '\n' || c = '\r'

/-- The text after the white space at its start. -/
def skipBlanks (cs : List Char) : List Char :=
  cs.dropWhile isBlank

/-! ### Strings -/

/-- The value of a hexadecimal digit in either case. -/
def hexValue? (c : Char) : Option Nat :=
  if '0' ≤ c ∧ c ≤ '9' then some (c.toNat - '0'.toNat)
  else if 'a' ≤ c ∧ c ≤ 'f' then some (c.toNat - 'a'.toNat + 10)
  else if 'A' ≤ c ∧ c ≤ 'F' then some (c.toNat - 'A'.toNat + 10)
  else none

/-- The code unit of four hexadecimal digits. -/
def readUnit : Reader Nat
  | a :: b :: c :: d :: rest => do
    let a ← hexValue? a
    let b ← hexValue? b
    let c ← hexValue? c
    let d ← hexValue? d
    return (((a * 16 + b) * 16 + c) * 16 + d, rest)
  | _ => none

/-- The character of a code unit; of the first half of a surrogate pair, with the second half. Half
a pair is no character. -/
def readUnicode : Reader Char := fun cs => do
  let (unit, rest) ← readUnit cs
  if unit < 0xd800 ∨ 0xdfff < unit then
    return (Char.ofNat unit, rest)
  else
    match rest with
    | '\\' :: 'u' :: rest =>
      let (second, rest) ← readUnit rest
      if unit ≤ 0xdbff ∧ 0xdc00 ≤ second ∧ second ≤ 0xdfff then
        return (Char.ofNat (0x10000 + (unit - 0xd800) * 0x400 + (second - 0xdc00)), rest)
      else none
    | _ => none

/-- The character of an escape, after the backslash. -/
def readEscape : Reader Char
  | '"' :: rest => some ('"', rest)
  | '\\' :: rest => some ('\\', rest)
  | '/' :: rest => some ('/', rest)
  | 'b' :: rest => some ('\x08', rest)
  | 'f' :: rest => some ('\x0c', rest)
  | 'n' :: rest => some ('\n', rest)
  | 'r' :: rest => some ('\r', rest)
  | 't' :: rest => some ('\t', rest)
  | 'u' :: rest => readUnicode rest
  | _ => none

/-- A character of a string: an escape, or one that stands for itself. -/
def readChar : Reader Char
  | '\\' :: rest => readEscape rest
  | c :: rest => if c.toNat < 0x20 then none else some (c, rest)
  | [] => none

/-- The characters of a string up to the closing quote. -/
def readChars : Nat → Reader (List Char)
  | 0, _ => none
  | _ + 1, '"' :: rest => some ([], rest)
  | bound + 1, cs => do
    let (c, rest) ← readChar cs
    let (more, rest) ← readChars bound rest
    return (c :: more, rest)

/-- A string. -/
def readText : Reader String
  | '"' :: cs => do
    let (content, rest) ← readChars cs.length cs
    return (String.ofList content, rest)
  | _ => none

/-! ### Numbers -/

/-- The number `mantissa * 10 ^ exponent` or its negative. -/
structure Decimal where
  negative : Bool
  mantissa : Nat
  exponent : Int

/-- The natural number that a decimal is, if it is one. -/
def Decimal.toNat? (d : Decimal) : Option Nat :=
  if d.negative ∧ d.mantissa ≠ 0 then none
  else
    match d.exponent with
    | .ofNat e => some (d.mantissa * Nat.pow 10 e)
    | .negSucc e =>
      if d.mantissa % Nat.pow 10 (e + 1) = 0 then some (d.mantissa / Nat.pow 10 (e + 1)) else none

/-- One or more digits. -/
def readDigits : Reader (List Char) := fun cs =>
  if (cs.takeWhile Char.isDigit).isEmpty then none
  else some (cs.takeWhile Char.isDigit, cs.dropWhile Char.isDigit)

/-- The digits before the point, without leading zeros. -/
def readWhole : Reader (List Char)
  | '0' :: rest => some (['0'], rest)
  | cs => readDigits cs

/-- The digits after the point, if there is one. -/
def readFraction : Reader (List Char)
  | '.' :: rest => readDigits rest
  | cs => some ([], cs)

/-- The exponent after an `e` in either case; without one it is zero. -/
def readExponent : Reader Int
  | [] => some (0, [])
  | c :: cs =>
    if c = 'e' ∨ c = 'E' then
      match cs with
      | '-' :: cs => do
        let (digits, rest) ← readDigits cs
        return (-(Nat.ofDigitChars 10 digits 0 : Int), rest)
      | '+' :: cs => do
        let (digits, rest) ← readDigits cs
        return (Nat.ofDigitChars 10 digits 0, rest)
      | cs => do
        let (digits, rest) ← readDigits cs
        return (Nat.ofDigitChars 10 digits 0, rest)
    else some (0, c :: cs)

/-- A number after its sign. -/
def readUnsigned (negative : Bool) : Reader Decimal := fun cs => do
  let (whole, rest) ← readWhole cs
  let (fraction, rest) ← readFraction rest
  let (exponent, rest) ← readExponent rest
  return (⟨negative, Nat.ofDigitChars 10 (whole ++ fraction) 0, exponent - fraction.length⟩, rest)

/-- A number. -/
def readDecimal : Reader Decimal
  | '-' :: cs => readUnsigned true cs
  | cs => readUnsigned false cs

/-- A number that is a natural number. -/
def readNumber : Reader Nat := fun cs => do
  let (decimal, rest) ← readDecimal cs
  let value ← decimal.toNat?
  return (value, rest)

/-! ### Values -/

/-- The rest of a word that stands for a value. -/
def readWord (word : List Char) (value : Json) : Reader Json := fun cs =>
  if word.isPrefixOf cs then some (value, cs.drop word.length) else none

section Lists

variable {α : Type} (element : Reader α) (close : Char)

/-- One or more elements with commas between them, up to the closing bracket. -/
def readMore : Nat → Reader (List α)
  | 0, _ => none
  | bound + 1, cs => do
    let (first, rest) ← element cs
    match skipBlanks rest with
    | [] => none
    | c :: rest =>
      if c = ',' then
        let (more, rest) ← readMore bound (skipBlanks rest)
        return (first :: more, rest)
      else if c = close then some ([first], rest)
      else none

/-- Elements with commas between them after the opening bracket, up to the closing one. -/
def readList (bound : Nat) : Reader (List α) := fun cs =>
  match skipBlanks cs with
  | [] => none
  | c :: rest => if c = close then some ([], rest) else readMore element close bound (c :: rest)

end Lists

/-- A member of an object: its key, a colon and its value. -/
def readMember (value : Reader Json) : Reader (String × Json) := fun cs => do
  let (key, rest) ← readText cs
  match skipBlanks rest with
  | ':' :: rest =>
    let (value, rest) ← value (skipBlanks rest)
    return ((key, value), rest)
  | _ => none

/-- A value at the start of a text. -/
def readValue : Nat → Reader Json
  | 0, _ => none
  | _ + 1, [] => none
  | bound + 1, c :: cs =>
    match c with
    | '"' => do
      let (content, rest) ← readText ('"' :: cs)
      return (.text content, rest)
    | '[' => do
      let (items, rest) ← readList (readValue bound) ']' bound cs
      return (.array items, rest)
    | '\x7b' => do
      let (members, rest) ← readList (readMember (readValue bound)) '\x7d' bound cs
      return (.object members, rest)
    | 'n' => readWord ['u', 'l', 'l'] .null cs
    | 't' => readWord ['r', 'u', 'e'] (.flag true) cs
    | 'f' => readWord ['a', 'l', 's', 'e'] (.flag false) cs
    | c => do
      let (value, rest) ← readNumber (c :: cs)
      return (.number value, rest)

/-- The value that a text is. -/
def decode (text : String) : Option Json := do
  let (value, rest) ← readValue text.length (skipBlanks text.toList)
  if (skipBlanks rest).isEmpty then some value else none

example : decode " \x7b \"\\uD83E\\uDD3C\\/\" : [ -0, 1.50e2 ,null]\n\x7d " =
    some (.object [("🤼/", .array [.number 0, .number 150, .null])]) := by rfl

end Lucha.Json
