/-!
# Padding

Texts filled up to a width, which counts characters. A text that is as wide already stays as it is.
A width is a number of sixteen bits (`widest`): asked for more, the program breaks off.
-/

namespace Lucha.Text

/-- The greatest width that a text can be filled up to. -/
def widest : Nat := 65535

/-- A character repeated. -/
def fill (count : Nat) (c : Char) : String :=
  String.ofList (List.replicate count c)

/-- Spaces. -/
def spaces (count : Nat) : String :=
  fill count ' '

/-- A text with `c` before it up to a width. -/
def padLeft (width : Nat) (c : Char) (text : String) : String :=
  fill (width - text.length) c ++ text

/-- A text with `c` after it up to a width. -/
def padRight (width : Nat) (c : Char) (text : String) : String :=
  text ++ fill (width - text.length) c

end Lucha.Text
