import Lucha.Proofs.Token.Partition

/-!
# Where the numerals of a source text stand

A numeral is a longest run of digits that stands in no comment and behind no character of a name
(`NumeralAt`). Each numeral of a source text is one token, which has the value of the digits or the
largest one if that is less, and the tokens before it are those of the text before it
(`NumeralAt.exists_tokens_eq`). No other token has the kind of a numeral
(`exists_numeralAt_of_mem_tokens`).
-/

namespace Lucha

/-- Some digits between two parts of a text are a numeral. -/
structure NumeralAt (cs before digits behind : List Char) : Prop where
  split : cs = before ++ digits ++ behind
  nonempty : digits ≠ []
  isDigit : ∀ c ∈ digits, c.isDigit = true
  /-- They do not belong to a name, nor are there more digits before them. -/
  apart : ∀ c ∈ before.getLast?, isNameChar c = false
  /-- There are no more digits behind them. -/
  maximal : ∀ c ∈ behind.head?, c.isDigit = false
  uncommented : ¬ CommentOpen before (digits ++ behind)

/-- No comment is open where there is no slash before. -/
theorem not_commentOpen_of_slash_notMem {before behind : List Char} (h : '/' ∉ before) :
    ¬ CommentOpen before behind := by
  rintro ⟨head, line, rfl, hne, -, hslashes⟩
  obtain ⟨c, line, rfl⟩ := List.exists_cons_of_ne_nil hne
  obtain rfl : '/' = c := (List.cons_prefix_cons.mp hslashes).1
  exact h (List.mem_append_right head List.mem_cons_self)

/-- The token of a numeral behind some text. -/
def numeralToken (before digits : List Char) : Token :=
  ⟨.number (min (Nat.ofDigitChars 10 digits 0) largestNumeral),
    .covering (Position.start.after before) digits⟩

/-! ### Digits in tokens -/

section

variable {kind : TokenKind} {text : List Char} {c d : Char}

theorem isNameChar_of_isDigit (h : c.isDigit = true) : isNameChar c = true :=
  (Bool.or_eq_true _ _).mpr (.inr h)

theorem IsWord.isNameChar (h : IsWord text) (hc : c ∈ text) : isNameChar c = true := by
  obtain ⟨first, rest, rfl, hfirst, hrest⟩ := h
  obtain rfl | hmem := List.mem_cons.mp hc
  · exact (Bool.or_eq_true _ _).mpr (.inl hfirst)
  · exact hrest c hmem

/-- A token with a digit has nothing but characters of names. -/
theorem TokenKind.SpelledBy.isNameChar_of_digit (h : kind.SpelledBy text) (hc : c ∈ text)
    (hdigit : c.isDigit = true) (hd : d ∈ text) : isNameChar d = true := by
  cases kind with
  | keyword k => exact IsWord.isNameChar h.1 hd
  | ident name => exact IsWord.isNameChar h.1 hd
  | number value => exact isNameChar_of_isDigit (h.2.1 d hd)
  | symbol m =>
    have hnone := (Symbol.classes (h ▸ hc)).2.1
    rw [hdigit] at hnone
    cases hnone
  | endOfInput => exact h.elim

/-- A token with a character of names goes on with a digit. -/
theorem TokenKind.SpelledBy.goesOn_digit (h : kind.SpelledBy text) (hd : d ∈ text)
    (hname : isNameChar d = true) (hdigit : c.isDigit = true) : kind.goesOn c = true := by
  cases kind with
  | keyword k => exact isNameChar_of_isDigit hdigit
  | ident name => exact isNameChar_of_isDigit hdigit
  | number value => exact hdigit
  | symbol m =>
    obtain ⟨hletter, hnone, -⟩ := Symbol.classes (h ▸ hd)
    rw [Lucha.isNameChar, hletter, hnone] at hname
    cases hname
  | endOfInput => exact h.elim

end

/-! ### Pieces and numerals -/

/-- Pieces are placed one after the other. -/
theorem Placed.place_append (p : Position) (xs ys : List Piece) :
    place p (xs ++ ys) = place p xs ++ place (p.after (xs.flatMap Piece.text)) ys := by
  induction xs generalizing p with
  | nil => rfl
  | cons piece xs ih =>
    rw [List.cons_append, place, place, ih, List.flatMap_cons, Position.after_append]
    rfl

namespace Piece

variable {cs rest before digits behind : List Char} {c : Char}

/-- A character of names that stands before a digit is part of the same lexeme. -/
theorem Fits.isNameChar_eq_false {piece : Piece} (h : piece.Fits (c :: rest))
    (hdigit : c.isDigit = true) : ∀ d ∈ piece.text.getLast?, isNameChar d = false := by
  intro d hd
  have hmem := List.mem_of_getLast? hd
  rw [Bool.eq_false_iff]
  intro hname
  cases piece with
  | spacing text =>
    have hspacing := h.2.1 d hmem
    rw [(isNameChar_classes hname).1] at hspacing
    cases hspacing
  | comment text =>
    obtain rfl : c = '\n' := h.2 c rfl
    cases hdigit
  | lexeme kind text =>
    have hstop := (TokenKind.longest_iff h.1).mp h.2 c rfl
    rw [h.1.goesOn_digit hmem hname hdigit] at hstop
    cases hstop
  | stray e =>
    obtain rfl : d = e := List.mem_singleton.mp hmem
    obtain hletter | hd := (Bool.or_eq_true _ _).mp hname
    · exact h.2.2 [d] _ ⟨_, rfl⟩ (TokenKind.spelledBy_wordKind ⟨d, [], rfl, hletter, nofun⟩)
    · exact h.2.2 [d] _ ⟨_, rfl⟩
        (TokenKind.spelledBy_number (List.cons_ne_nil d []) (List.forall_mem_singleton.mpr hd))

/-- The pieces of a text before and behind a numeral are those of the parts. -/
theorem exists_of_numeralAt (h : NumeralAt cs before digits behind) :
    ∃ xs ys, before = xs.flatMap text ∧
      ofChars cs = xs ++ lexeme (.number (numeralValue digits)) digits :: ys := by
  obtain ⟨c, ds, rfl⟩ := List.exists_cons_of_ne_nil h.nonempty
  have hc := h.isDigit c List.mem_cons_self
  have hsplit : cs = before ++ c :: (ds ++ behind) := by
    rw [h.split, List.append_assoc]
    rfl
  obtain ⟨piece, hpiece⟩ := exists_holds ((flatMap_text_ofChars cs).trans hsplit)
  have hcomment : ¬ ∃ text, piece = comment text := by
    rw [← hpiece.inComment_iff, Lucha.inComment_iff]
    rintro ⟨-, hopen | hslashes⟩
    · exact h.uncommented hopen
    · exact (isDigit_classes hc).2.1 (List.cons_prefix_cons.mp hslashes).1.symm
  obtain ⟨xs, ys, s, t, hpieces, htext, rfl, hrest⟩ := hpiece
  have hfits := Holds.fits hpieces
  have hmem : c ∈ piece.text := htext ▸ List.mem_append_right s List.mem_cons_self
  obtain ⟨kind, text, rfl⟩ : ∃ kind text, piece = lexeme kind text := by
    cases piece with
    | spacing text =>
      have hspacing := hfits.2.1 c hmem
      rw [(isDigit_classes hc).1] at hspacing
      cases hspacing
    | comment text => exact absurd ⟨text, rfl⟩ hcomment
    | lexeme kind text => exact ⟨kind, text, rfl⟩
    | stray d =>
      obtain rfl : c = d := List.mem_singleton.mp hmem
      exact absurd (TokenKind.spelledBy_number (List.cons_ne_nil c [])
        (List.forall_mem_singleton.mpr hc)) (hfits.2.2 [c] _ ⟨_, rfl⟩)
  have hs : s = [] := by
    refine (List.eq_nil_or_concat s).resolve_right ?_
    rintro ⟨front, d, rfl⟩
    have hlast : d ∈ (lexeme kind text).text := by
      rw [htext, List.concat_eq_append]
      simp
    have hname := hfits.1.isNameChar_of_digit hmem hc hlast
    rw [h.apart d (by simp)] at hname
    cases hname
  subst hs
  obtain rfl : text = c :: t := htext
  obtain ⟨hdigits, rfl⟩ := hfits.1.of_digit hc
  -- both the lexeme and the numeral go on as far as there are digits
  have hlexeme := (takeWhile_of_run hdigits ((TokenKind.longest_iff hfits.1).mp hfits.2)).1
  have hnumeral := (takeWhile_of_run h.isDigit h.maximal).1
  rw [List.cons_append, hrest, ← List.cons_append, hlexeme] at hnumeral
  rw [hnumeral] at hpieces
  exact ⟨xs, ys, List.append_nil _, hpieces⟩

/-- A piece that is a numeral stands where a numeral is. -/
theorem numeralAt_of_lexeme {xs ys : List Piece} {value : Nat}
    (h : ofChars cs = xs ++ lexeme (.number value) digits :: ys) :
    NumeralAt cs (xs.flatMap text) digits (ys.flatMap text) ∧
      value = min (Nat.ofDigitChars 10 digits 0) largestNumeral := by
  have hspelled : (TokenKind.number value).SpelledBy digits := (Holds.fits h).1
  have hstop := (TokenKind.longest_iff hspelled).mp (Holds.fits h).2
  obtain ⟨hne, hdigits, hvalue⟩ := hspelled
  obtain ⟨c, ds, rfl⟩ := List.exists_cons_of_ne_nil hne
  have hc := hdigits c List.mem_cons_self
  have hsplit : cs = xs.flatMap text ++ (c :: ds) ++ ys.flatMap text := by
    rw [← flatMap_text_ofChars cs, h, List.flatMap_append, List.append_assoc]
    rfl
  refine ⟨⟨hsplit, hne, hdigits, fun d hd => ?_, hstop, fun hopen => ?_⟩, hvalue⟩
  · -- the piece before is one that fits before a digit
    obtain hnil | ⟨front, piece, hconcat⟩ := List.eq_nil_or_concat xs
    · rw [hnil] at hd
      cases hd
    · rw [hconcat, List.concat_eq_append, List.append_assoc] at h
      have hfits : piece.Fits (c :: (ds ++ ys.flatMap text)) := Holds.fits h
      obtain ⟨s, e, htext⟩ := (List.eq_nil_or_concat piece.text).resolve_left hfits.text_ne_nil
      refine hfits.isNameChar_eq_false hc d ?_
      simpa [hconcat, htext] using hd
  · have hholds : Holds (ofChars cs) (xs.flatMap text) c (ds ++ ys.flatMap text)
        (lexeme (.number value) (c :: ds)) :=
      ⟨xs, ys, [], ds, h, rfl, (List.append_nil _).symm, rfl⟩
    have hline : c ≠ '\n' := by
      rintro rfl
      cases hc
    have hin : InComment (xs.flatMap text) c (ds ++ ys.flatMap text) :=
      inComment_iff.mpr ⟨hline, .inl hopen⟩
    obtain ⟨_, ⟨⟩⟩ := hholds.inComment_iff.mp hin

end Piece

/-! ### Tokens and numerals -/

variable {cs before digits behind : List Char}

/-- A numeral is one token, and the tokens before it are those of the text before it. -/
theorem NumeralAt.exists_tokens_eq (h : NumeralAt cs before digits behind) : ∃ later,
    (Scan.ofChars cs).tokens
      = (Scan.ofChars before).tokens ++ numeralToken before digits :: later := by
  obtain ⟨xs, ys, rfl, hpieces⟩ := Piece.exists_of_numeralAt h
  have hcs : xs.flatMap Piece.text
      ++ (Piece.lexeme (.number (numeralValue digits)) digits :: ys).flatMap Piece.text = cs := by
    rw [← List.flatMap_append, ← hpieces, Piece.flatMap_text_ofChars]
  have hfront : Piece.ofChars (xs.flatMap Piece.text) = xs :=
    Piece.ofChars_of_append (by rw [hcs, hpieces])
  have htoken : Placed.token? ⟨.lexeme (.number (numeralValue digits)) digits,
      Position.start.after (xs.flatMap Piece.text)⟩
        = some (numeralToken (xs.flatMap Piece.text) digits) := by
    rw [numeralToken, ← numeralValue_eq]
    rfl
  rw [Scan.tokens, Scan.ofChars, hpieces, Placed.place_append, List.filterMap_append,
    Placed.place, List.filterMap_cons_some htoken, Scan.tokens, Scan.ofChars, hfront]
  exact ⟨_, rfl⟩

/-- A token of the kind of a numeral is the one of a numeral. -/
theorem exists_numeralAt_of_mem_tokens {token : Token} {value : Nat}
    (h : token ∈ (Scan.ofChars cs).tokens) (hkind : token.kind = .number value) :
    ∃ before digits behind, NumeralAt cs before digits behind ∧
      token = numeralToken before digits := by
  obtain ⟨xs, kind, text, ys, hpieces, rfl⟩ := Scan.mem_tokens_iff.mp h
  obtain rfl : kind = .number value := hkind
  obtain ⟨hnumeral, rfl⟩ := Piece.numeralAt_of_lexeme hpieces
  exact ⟨_, _, _, hnumeral, rfl⟩

end Lucha
