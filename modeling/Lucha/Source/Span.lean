import Lucha.Source.Position

/-!
# Spans of source text

A `Span` is a range of bytes with the line and column of its start. Over the text it was taken from
it gives back what it covers (`Span.text`) and the line it starts on (`Span.lineText`).
-/

namespace Lucha

/-- A range of a source text. -/
structure Span where
  /-- Bytes before the range. -/
  start : Nat
  /-- Bytes before the end of the range. -/
  stop : Nat
  /-- Line on which the range starts, counted from one. -/
  line : Nat
  /-- Column at which the range starts, counted from one. -/
  column : Nat
deriving DecidableEq

namespace Span

/-- The span of what is in no source text. -/
def none : Span := ⟨0, 0, 0, 0⟩

instance : Inhabited Span := ⟨none⟩

/-- The span of what is in no source text but counts as declared on a line. -/
def onLine (line : Nat) : Span := ⟨0, 0, line, 0⟩

/-- The span of the characters that follow a position. -/
def covering (p : Position) (text : List Char) : Span :=
  ⟨p.offset, (p.after text).offset, p.line, p.column⟩

/-- The characters after exactly `bytes` bytes, unless there are too few or a character is cut. -/
def dropBytes? : Nat → List Char → Option (List Char)
  | 0, cs => some cs
  | _ + 1, [] => .none
  | bytes + 1, c :: cs =>
    if c.utf8Size ≤ bytes + 1 then dropBytes? (bytes + 1 - c.utf8Size) cs else .none

/-- The characters of exactly the first `bytes` bytes, unless there are too few or a character is
cut. -/
def takeBytes? : Nat → List Char → Option (List Char)
  | 0, _ => some []
  | _ + 1, [] => .none
  | bytes + 1, c :: cs =>
    if c.utf8Size ≤ bytes + 1 then (takeBytes? (bytes + 1 - c.utf8Size) cs).map (c :: ·) else .none

/-- The text a span covers: nothing, if the span does not fit the source. -/
def text (s : Span) (source : String) : String :=
  String.ofList (((dropBytes? s.start source.toList).bind (takeBytes? (s.stop - s.start))).getD [])

/-- A text cut at the first character that has at least `bytes` bytes before it. -/
def cutAt : Nat → List Char → List Char × List Char
  | _, [] => ([], [])
  | 0, cs => ([], cs)
  | bytes + 1, c :: cs =>
    let (before, behind) := cutAt (bytes + 1 - c.utf8Size) cs
    (c :: before, behind)

/-- The characters after the last line feed. -/
def lastLine (cs : List Char) : List Char :=
  (cs.reverse.takeWhile (· ≠ '\n')).reverse

/-- A line without the carriage returns at its end. -/
def withoutReturns (cs : List Char) : List Char :=
  (cs.reverse.dropWhile (· = '\r')).reverse

/-- The line of the source on which a span starts, without the carriage returns at its end. -/
def lineText (s : Span) (source : String) : String :=
  let (before, behind) := cutAt s.start source.toList
  String.ofList (withoutReturns (lastLine before ++ behind.takeWhile (· ≠ '\n')))

end Span

end Lucha
