import Lucha.Token.Basic

/-!
# Pieces of a source text

A source text falls into pieces: runs of blanks, comments, lexemes, and stray characters that
nothing starts with. `Piece.first` cuts the first piece off a text and `Piece.ofChars` cuts a
whole text up; `flatMap_text_ofChars` says that the pieces put together give back the text, and
`Piece.ofChars_cons` how the cutting goes on.
-/

namespace Lucha

/-! ### Characters -/

/-- The characters that separate lexemes. -/
def isSpacing (c : Char) : Bool :=
  c == ' ' || c == '\t' || c == '\r' || c == '\n'

/-- The letters of names: those of ASCII, the underscore, and the accented Spanish ones. -/
def isLetter (c : Char) : Bool :=
  c.isAlpha || c == '_' || "áéíóúÁÉÍÓÚñÑ".toList.contains c

/-- The characters of names after the first. -/
def isNameChar (c : Char) : Bool :=
  isLetter c || c.isDigit

/-- The lower case of a letter of names. -/
def lowerLetter (c : Char) : Char :=
  match c with
  | 'Á' => 'á'
  | 'É' => 'é'
  | 'Í' => 'í'
  | 'Ó' => 'ó'
  | 'Ú' => 'ú'
  | 'Ñ' => 'ñ'
  | c => c.toLower

/-! ### Lexemes -/

/-- The largest value of a numeral; larger ones count as this. -/
def largestNumeral : Nat := 18446744073709551615

/-- The value of some decimal digits, at most `largestNumeral`. -/
def numeralValue (digits : List Char) : Nat :=
  digits.foldl (fun value digit => min (10 * value + (digit.toNat - '0'.toNat)) largestNumeral) 0

/-- What a word is: a reserved word, in whatever case, or else an identifier as it is spelled. -/
def wordKind (letters : List Char) : TokenKind :=
  match Keyword.ofText? (String.ofList (letters.map lowerLetter)) with
  | some word => .keyword word
  | none => .ident (String.ofList letters)

/-- A stretch of source text that belongs together. -/
inductive Piece where
  /-- Characters that separate lexemes. -/
  | spacing (text : List Char)
  /-- Two slashes and the rest of the line. -/
  | comment (text : List Char)
  /-- A word, a numeral or a symbol. -/
  | lexeme (kind : TokenKind) (text : List Char)
  /-- A character that no other piece starts with. -/
  | stray (char : Char)
deriving DecidableEq

namespace Piece

/-- The characters of a piece. -/
def text : Piece → List Char
  | spacing text => text
  | comment text => text
  | lexeme _ text => text
  | stray char => [char]

/-- The symbol or stray character that a text starts with, and the text behind it. -/
def firstMark (c : Char) (cs : List Char) : Piece × List Char :=
  match Symbol.ofCharEquals? c, cs with
  | some mark, '=' :: rest => (lexeme (.symbol mark) [c, '='], rest)
  | _, _ =>
    match Symbol.ofChar? c with
    | some mark => (lexeme (.symbol mark) [c], cs)
    | none => (stray c, cs)

/-- The first piece of a text that starts with `c`, and the text behind it. -/
def first (c : Char) (cs : List Char) : Piece × List Char :=
  if isSpacing c then
    (spacing (c :: cs.takeWhile isSpacing), cs.dropWhile isSpacing)
  else if c = '/' ∧ cs.head? = some '/' then
    (comment (c :: cs.takeWhile (· ≠ '\n')), cs.dropWhile (· ≠ '\n'))
  else if c.isDigit then
    let digits := c :: cs.takeWhile Char.isDigit
    (lexeme (.number (numeralValue digits)) digits, cs.dropWhile Char.isDigit)
  else if isLetter c then
    let letters := c :: cs.takeWhile isNameChar
    (lexeme (wordKind letters) letters, cs.dropWhile isNameChar)
  else firstMark c cs

/-- The first piece and the text behind it make up the text. -/
theorem text_first_append (c : Char) (cs : List Char) :
    (first c cs).1.text ++ (first c cs).2 = c :: cs := by
  unfold first firstMark
  split
  · simp [text]
  · split
    · simp [text]
    · split
      · simp [text]
      · split
        · simp [text]
        · split
          · simp [text]
          · split <;> simp [text]

/-- The first piece of a text is not empty, so the scan goes on. -/
theorem text_first_ne_nil (c : Char) (cs : List Char) : (first c cs).1.text ≠ [] := by
  unfold first firstMark
  split
  · simp [text]
  · split
    · simp [text]
    · split
      · simp [text]
      · split
        · simp [text]
        · split
          · simp [text]
          · split <;> simp [text]

/-- The text behind the first piece is shorter. -/
theorem length_first_le (c : Char) (cs : List Char) : (first c cs).2.length ≤ cs.length := by
  have happend := congrArg List.length (text_first_append c cs)
  have hne := List.length_pos_iff.mpr (text_first_ne_nil c cs)
  simp only [List.length_append, List.length_cons] at happend
  omega

/-- At most so many pieces of a text, from its start. -/
def upTo : Nat → List Char → List Piece
  | 0, _ => []
  | _ + 1, [] => []
  | bound + 1, c :: cs => (first c cs).1 :: upTo bound (first c cs).2

/-- The pieces of a text. Each has a character at least, so there are no more than characters. -/
def ofChars (cs : List Char) : List Piece :=
  upTo cs.length cs

/-- A bound that is no less than the number of characters does not cut the pieces off. -/
theorem upTo_of_length_le {bound : Nat} {cs : List Char} (h : cs.length ≤ bound) :
    upTo bound cs = ofChars cs := by
  induction bound using Nat.strongRecOn generalizing cs with
  | _ bound ih =>
    match bound, cs, h with
    | 0, [], _ => rfl
    | _ + 1, [], _ => rfl
    | bound + 1, c :: cs, h =>
      have hle := length_first_le c cs
      simp only [List.length_cons] at h
      rw [ofChars, List.length_cons, upTo, upTo, ih bound (by omega) (by omega)]
      by_cases heq : cs.length = bound
      · rw [heq, ih bound (by omega) (by omega)]
      · rw [ih cs.length (by omega) hle]

@[simp]
theorem ofChars_nil : ofChars [] = [] := rfl

/-- A text is cut into its first piece and the pieces of the text behind. -/
theorem ofChars_cons (c : Char) (cs : List Char) :
    ofChars (c :: cs) = (first c cs).1 :: ofChars (first c cs).2 := by
  rw [← upTo_of_length_le (length_first_le c cs)]
  rfl

/-- The pieces put together give back the text. -/
theorem flatMap_text_ofChars (cs : List Char) : (ofChars cs).flatMap text = cs := by
  induction hn : cs.length using Nat.strongRecOn generalizing cs with
  | _ n ih =>
    match cs with
    | [] => rfl
    | c :: cs =>
      have hle := length_first_le c cs
      simp only [List.length_cons] at hn
      rw [ofChars_cons, List.flatMap_cons, ih _ (by omega) _ rfl, text_first_append]

end Piece

end Lucha
