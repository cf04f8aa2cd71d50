import Lucha.Proofs.Token.Fit
import Lucha.Quantity
import Lucha.Token.Scan
import Mathlib.Data.List.Chain

/-!
# Spelling tokens

What is found in a text, blanks and comments left out, are kinds of tokens and stray characters
(`Text.content`). Each kind of token has a spelling (`TokenKind.spelling`), which is found again as
that kind wherever the character behind it does not go on with it (`Text.content_spelling`). A line
that is put together from spellings, with or without blanks before them, is found as their kinds
(`Text.content_chunks`), if no blank is left out that is needed (`Chunk.Joins`).
-/

namespace Lucha

/-- A kind of token, or else a stray character. -/
abbrev Found := TokenKind ⊕ Char

/-- What is found in a piece: nothing in blanks and comments. -/
def Piece.found? : Piece → Option Found
  | spacing _ => none
  | comment _ => none
  | lexeme kind _ => some (.inl kind)
  | stray char => some (.inr char)

/-- What is found in a text, in order. -/
def Text.content (cs : List Char) : List Found :=
  (Piece.ofChars cs).filterMap Piece.found?

/-! ### What is found -/

namespace Text

open Piece (first)

@[simp]
theorem content_nil : content [] = [] := rfl

theorem content_cons (c : Char) (cs : List Char) :
    content (c :: cs) = (first c cs).1.found?.toList ++ content (first c cs).2 := by
  rw [content, Piece.ofChars_cons, List.filterMap_cons]
  cases (first c cs).1.found? <;> rfl

/-- What is found in a text is found in its first piece and then behind it. -/
theorem content_of_fits {piece : Piece} {rest : List Char} (h : piece.Fits rest) :
    content (piece.text ++ rest) = piece.found?.toList ++ content rest := by
  cases htext : piece.text ++ rest with
  | nil => exact absurd (List.append_eq_nil_iff.mp htext).1 h.text_ne_nil
  | cons c cs => rw [content_cons, Piece.first_of_fits h htext]

/-! ### Blanks -/

/-- White space in front of a text does not change what is found in it. -/
private theorem content_dropWhile_spacing (cs : List Char) :
    content (cs.dropWhile isSpacing) = content cs := by
  cases cs with
  | nil => rfl
  | cons c cs =>
    by_cases hc : isSpacing c
    · rw [List.dropWhile_cons_of_pos hc, content_cons, first, if_pos hc]
      rfl
    · rw [List.dropWhile_cons_of_neg hc]

/-- Nothing is found in a blank. -/
theorem content_spacing {c : Char} (h : isSpacing c = true) (cs : List Char) :
    content (c :: cs) = content cs := by
  rw [content_cons, first, if_pos h]
  exact content_dropWhile_spacing cs

theorem content_spaces (n : Nat) (cs : List Char) :
    content (List.replicate n ' ' ++ cs) = content cs := by
  induction n with
  | zero => rfl
  | succ n ih => rw [List.replicate_succ, List.cons_append, content_spacing rfl, ih]

end Text

/-! ### Spellings -/

namespace TokenKind

/-- How a kind of token is written. -/
def spelling : TokenKind → List Char
  | keyword k => k.text.toList
  | symbol m => m.text.toList
  | ident name => name.toList
  | number value => value.repr.toList
  | endOfInput => []

/-- The kind is found again in its spelling: names are names, and numerals not too large. -/
def Legible : TokenKind → Prop
  | ident name => IsName name
  | number value => value ≤ largestNumeral
  | endOfInput => False
  | _ => True

@[simp]
theorem legible_keyword (k : Keyword) : (keyword k).Legible := trivial

@[simp]
theorem legible_symbol (m : Symbol) : (symbol m).Legible := trivial

@[simp]
theorem legible_ident_iff {name : String} : (ident name).Legible ↔ IsName name := Iff.rfl

@[simp]
theorem legible_number (q : Quantity) : (number q.toNat).Legible :=
  Nat.le_trans (Quantity.toNat_le_largest q) (by decide)

/-- A character that does not go on with a token of the kind. -/
def Stops (c : Char) : TokenKind → Prop
  | keyword _ => isNameChar c = false
  | ident _ => isNameChar c = false
  | number _ => c.isDigit = false
  | symbol _ => c ≠ '='
  | endOfInput => True

/-- A character that goes on with no token. -/
private theorem stops_of {c : Char} (hname : isNameChar c = false) (hequals : c ≠ '=')
    (kind : TokenKind) : kind.Stops c := by
  have hdigit : c.isDigit = false := by
    rw [isNameChar, Bool.or_eq_false_iff] at hname
    exact hname.2
  cases kind with
  | symbol m => exact hequals
  | number value => exact hdigit
  | endOfInput => trivial
  | _ => exact hname

theorem stops_space (kind : TokenKind) : kind.Stops ' ' :=
  stops_of (by decide) (by decide) kind

theorem stops_newline (kind : TokenKind) : kind.Stops '\n' :=
  stops_of (by decide) (by decide) kind

end TokenKind

/-! ### What the scan finds is legible -/

/-- What a text spells can be written. -/
theorem TokenKind.SpelledBy.legible {kind : TokenKind} {text : List Char}
    (h : kind.SpelledBy text) : kind.Legible := by
  cases kind with
  | ident name =>
    obtain ⟨⟨c, cs, rfl, hc, hcs⟩, hfree, rfl⟩ := h
    exact ⟨⟨c, cs, String.toList_ofList, hc, hcs⟩, by rwa [String.toList_ofList]⟩
  | number value => exact h.2.2 ▸ Nat.min_le_right _ _
  | endOfInput => exact h
  | _ => trivial

namespace Piece

/-- The kind of a lexeme is legible. -/
def Legible : Piece → Prop
  | lexeme kind _ => kind.Legible
  | _ => True

theorem legible_of_mem_ofChars {cs : List Char} {piece : Piece} (h : piece ∈ ofChars cs) :
    piece.Legible := by
  obtain ⟨rest, hfits⟩ := exists_fits_of_mem h
  cases piece with
  | lexeme kind text => exact hfits.1.legible
  | _ => trivial

end Piece

/-! ### Kinds of tokens in a row -/

/-- A legible kind is spelled by what it is written as. -/
theorem TokenKind.spelledBy_spelling {kind : TokenKind} (h : kind.Legible) :
    kind.SpelledBy kind.spelling := by
  cases kind with
  | keyword k => exact ⟨k.letters_text, k.lower_text⟩
  | ident name => exact ⟨h.letters, h.free, String.ofList_toList.symm⟩
  | number value =>
    rw [spelling, Nat.toList_repr]
    refine ⟨Nat.toDigits_ne_nil, fun d hd => Nat.isDigit_of_mem_toDigits (by decide) (by decide) hd,
      ?_⟩
    rw [Nat.ofDigitChars_toDigits (by omega) (by omega)]
    exact (Nat.min_eq_left h).symm
  | symbol m => rfl
  | endOfInput => exact h

theorem TokenKind.Stops.goesOn {kind : TokenKind} {c : Char} (h : kind.Stops c) :
    kind.goesOn c = false := by
  cases kind with
  | symbol m => simp [TokenKind.goesOn, show c ≠ '=' from h]
  | endOfInput => rfl
  | _ => exact h

/-- A kind of token is found in its spelling, if the next character does not go on with it. -/
theorem Text.content_spelling {kind : TokenKind} (h : kind.Legible) {c : Char}
    (hc : kind.Stops c) (cs : List Char) :
    content (kind.spelling ++ c :: cs) = .inl kind :: content (c :: cs) := by
  have hspelled := TokenKind.spelledBy_spelling h
  have hfits : (Piece.lexeme kind kind.spelling).Fits (c :: cs) :=
    ⟨hspelled, (TokenKind.longest_iff hspelled).mpr fun d hd => Option.some.inj hd ▸ hc.goesOn⟩
  exact content_of_fits hfits

/-- Whether a token of one kind can stand right behind a token of another. -/
def TokenKind.isApart : TokenKind → TokenKind → Bool
  | symbol _, symbol m => m ≠ .assign ∧ m ≠ .equal
  | symbol _, _ => true
  | _, symbol _ => true
  | _, _ => false

private theorem Symbol.exists_text (m : Symbol) :
    ∃ c cs, m.text.toList = c :: cs ∧ isNameChar c = false ∧
      (m ≠ .assign → m ≠ .equal → c ≠ '=') := by
  cases m <;> exact ⟨_, _, rfl, by decide, by decide⟩

/-- The first character of a kind does not go on with a kind that it can stand behind. -/
private theorem TokenKind.exists_stops {a b : TokenKind} (hb : b.Legible)
    (h : a.isApart b = true) : ∃ c cs, b.spelling = c :: cs ∧ a.Stops c := by
  -- behind a word or a numeral only a symbol can stand, and behind a symbol everything but `=`
  cases b with
  | symbol m =>
    obtain ⟨c, cs, htext, hname, hequals⟩ := m.exists_text
    refine ⟨c, cs, htext, ?_⟩
    cases a with
    | symbol m' =>
      simp only [isApart, decide_eq_true_eq] at h
      exact hequals h.1 h.2
    | number value => exact (Bool.or_eq_false_iff.mp hname).2
    | endOfInput => trivial
    | _ => exact hname
  | keyword k =>
    obtain ⟨c, cs, htext, hc, -⟩ := k.letters_text
    refine ⟨c, cs, htext, ?_⟩
    cases a with
    | symbol m' => exact (isLetter_classes hc).2.2.2
    | _ => cases h
  | ident name =>
    obtain ⟨c, cs, htext, hc, -⟩ := hb.letters
    refine ⟨c, cs, htext, ?_⟩
    cases a with
    | symbol m' => exact (isLetter_classes hc).2.2.2
    | _ => cases h
  | number value =>
    obtain ⟨c, cs, htext⟩ := List.exists_cons_of_ne_nil (Nat.toDigits_ne_nil (n := value) (b := 10))
    have hc : c.isDigit = true := Nat.isDigit_of_mem_toDigits (by decide) (by decide)
      (htext ▸ List.mem_cons_self)
    refine ⟨c, cs, by rw [spelling, Nat.toList_repr, htext], ?_⟩
    cases a with
    | symbol m' => exact (isDigit_classes hc).2.2.2
    | _ => cases h
  | endOfInput => exact hb.elim

/-- A kind of token in a line, and whether a blank stands before it. -/
structure Chunk where
  spaced : Bool
  kind : TokenKind

namespace Chunk

/-- A kind of token right behind what stands before it. -/
def close (kind : TokenKind) : Chunk := ⟨false, kind⟩

/-- A kind of token after a blank. -/
def apart (kind : TokenKind) : Chunk := ⟨true, kind⟩

/-- The characters of a chunk. -/
def text (c : Chunk) : List Char :=
  if c.spaced then ' ' :: c.kind.spelling else c.kind.spelling

/-- A chunk can stand behind another. -/
def Joins (a b : Chunk) : Prop :=
  b.spaced = true ∨ a.kind.isApart b.kind = true

@[simp]
theorem kind_close (kind : TokenKind) : (close kind).kind = kind := rfl

@[simp]
theorem kind_apart (kind : TokenKind) : (apart kind).kind = kind := rfl

@[simp]
theorem text_close (kind : TokenKind) : (close kind).text = kind.spelling := rfl

@[simp]
theorem text_apart (kind : TokenKind) : (apart kind).text = ' ' :: kind.spelling := rfl

@[simp]
theorem joins_close_iff {a : Chunk} {kind : TokenKind} :
    a.Joins (close kind) ↔ a.kind.isApart kind = true := by
  simp [Joins, close]

@[simp]
theorem joins_apart (a : Chunk) (kind : TokenKind) : a.Joins (apart kind) :=
  .inl rfl

/-- A chunk that can stand behind every other. -/
def Free (b : Chunk) : Prop :=
  ∀ a : Chunk, a.Joins b

/-- A symbol that is no part of a longer one can stand behind everything. -/
theorem free_symbol {m : Symbol} (h : m ≠ .assign ∧ m ≠ .equal) :
    (close (.symbol m)).Free := by
  intro a
  rw [joins_close_iff]
  cases a.kind with
  | symbol m' => exact decide_eq_true h
  | _ => rfl

end Chunk

namespace Text

/-- Behind a chunk stands a character that stops it: the first one of the next chunk, or the line
feed. -/
private theorem exists_stops_flatMap {a : Chunk} {chunks : List Chunk}
    (hlegible : ∀ b ∈ chunks, b.kind.Legible) (hjoins : (a :: chunks).IsChain Chunk.Joins)
    (cs : List Char) :
    ∃ d ds, chunks.flatMap Chunk.text ++ '\n' :: cs = d :: ds ∧ a.kind.Stops d := by
  obtain _ | ⟨⟨spaced, kind⟩, chunks⟩ := chunks
  · exact ⟨_, _, rfl, a.kind.stops_newline⟩
  · rw [List.flatMap_cons, List.append_assoc, Chunk.text]
    cases spaced with
    | true => exact ⟨_, _, rfl, a.kind.stops_space⟩
    | false =>
      obtain hspaced | hapart := (List.isChain_cons_cons.mp hjoins).1
      · cases hspaced
      · obtain ⟨c, cs, htext, hstops⟩ :=
          TokenKind.exists_stops (hlegible _ List.mem_cons_self) hapart
        exact ⟨c, _, by rw [if_neg Bool.false_ne_true, htext]; rfl, hstops⟩

/-- What is found in a line is the kinds it is put together from. -/
theorem content_chunks {chunks : List Chunk} (hlegible : ∀ c ∈ chunks, c.kind.Legible)
    (hjoins : chunks.IsChain Chunk.Joins) (cs : List Char) :
    content (chunks.flatMap Chunk.text ++ '\n' :: cs)
      = (chunks.map fun c => .inl c.kind) ++ content cs := by
  induction chunks with
  | nil => exact content_spacing rfl cs
  | cons a chunks ih =>
    obtain ⟨ha, hlegible⟩ := List.forall_mem_cons.mp hlegible
    obtain ⟨d, ds, htext, hstops⟩ := exists_stops_flatMap hlegible hjoins cs
    have htail := ih hlegible hjoins.of_cons
    have hspelling : content (a.kind.spelling ++ (chunks.flatMap Chunk.text ++ '\n' :: cs))
        = .inl a.kind :: content (chunks.flatMap Chunk.text ++ '\n' :: cs) := by
      rw [htext, content_spelling ha hstops]
    rw [List.flatMap_cons, List.append_assoc, List.map_cons, List.cons_append, ← htail, ← hspelling,
      Chunk.text]
    split
    · exact content_spacing rfl _
    · rfl

end Text

/-! ### Scans -/

/-- Placing pieces adds none. -/
theorem Placed.mem_of_mem_place {p : Position} {pieces : List Piece} {placed : Placed}
    (h : placed ∈ place p pieces) : placed.piece ∈ pieces := by
  induction pieces generalizing p with
  | nil => cases h
  | cons piece rest ih =>
    rcases List.mem_cons.mp h with rfl | h
    · exact List.mem_cons_self
    · exact List.mem_cons_of_mem _ (ih h)

namespace Scan

/-- The tokens of a scan are legible. -/
theorem legible_of_mem_tokens {cs : List Char} {token : Token} (h : token ∈ (ofChars cs).tokens) :
    token.kind.Legible := by
  obtain ⟨⟨piece, position⟩, hplaced, htoken⟩ := List.mem_filterMap.mp h
  have hlegible := Piece.legible_of_mem_ofChars (Placed.mem_of_mem_place hplaced)
  cases piece with
  | lexeme kind text =>
    cases htoken
    exact hlegible
  | _ => cases htoken

/-- Where the pieces have no stray characters, their lexemes are the tokens. -/
private theorem of_filterMap_found {pieces : List Piece} {kinds : List TokenKind}
    (h : pieces.filterMap Piece.found? = kinds.map .inl) (p : Position) :
    ((Placed.place p pieces).filterMap Placed.token?).map Token.kind = kinds ∧
      (Placed.place p pieces).filterMap Placed.stray? = [] := by
  induction pieces generalizing kinds p with
  | nil =>
    cases List.map_eq_nil_iff.mp h.symm
    exact ⟨rfl, rfl⟩
  | cons piece rest ih =>
    cases piece with
    | lexeme kind text =>
      obtain _ | ⟨_, kinds⟩ := kinds
      · cases h
      · obtain ⟨heq, h⟩ := List.cons.inj h
        obtain ⟨hkinds, hstrays⟩ := ih h (p.after text)
        cases heq
        exact ⟨congrArg (kind :: ·) hkinds, hstrays⟩
    | stray char =>
      obtain _ | ⟨_, kinds⟩ := kinds
      · cases h
      · cases (List.cons.inj h).1
    | spacing text => exact ih h (p.after text)
    | comment text => exact ih h (p.after text)

/-- A text where only tokens are found has these tokens and no stray characters. -/
theorem of_content {cs : List Char} {kinds : List TokenKind}
    (h : Text.content cs = kinds.map .inl) :
    (ofChars cs).tokens.map Token.kind = kinds ∧ (ofChars cs).strays = [] :=
  of_filterMap_found h .start

end Scan

end Lucha
