import Lucha.Proofs.Token.Partition

/-!
# Laying tokens out

The tokens of a source text can be written once more with other gaps between them, of blanks and
comments (`IsGap`), and with their reserved words in another case (`LaidOut`). Nothing is found in
the gaps, and no token goes on with what a gap begins with, so in the text that is written the same
tokens are found (`LaidOut.content_eq`).
-/

namespace Lucha

/-! ### Gaps -/

/-- Blanks and comments, each comment with the line feed that ends it. -/
inductive IsGap : List Char → Prop
  | nil : IsGap []
  | blank {c : Char} {rest : List Char} (hc : isSpacing c = true) (hrest : IsGap rest) :
    IsGap (c :: rest)
  | comment {body rest : List Char} (hbody : '\n' ∉ body) (hrest : IsGap rest) :
    IsGap ('/' :: '/' :: body ++ '\n' :: rest)

namespace Text

/-- Nothing is found in a gap. -/
theorem content_gap {gap : List Char} (h : IsGap gap) (cs : List Char) :
    content (gap ++ cs) = content cs := by
  induction h with
  | nil => rfl
  | blank hc _ ih => rw [List.cons_append, content_spacing hc, ih]
  | @comment body rest hbody _ ih =>
    have hfits : (Piece.comment ('/' :: '/' :: body)).Fits ('\n' :: (rest ++ cs)) :=
      ⟨⟨body, rfl, hbody⟩, fun d hd => (Option.some.inj hd).symm⟩
    calc content ('/' :: '/' :: body ++ '\n' :: rest ++ cs)
        = content ('/' :: '/' :: body ++ '\n' :: (rest ++ cs)) := by rw [List.append_assoc]; rfl
      _ = content ('\n' :: (rest ++ cs)) := content_of_fits hfits
      _ = content cs := by rw [content_spacing rfl, ih]

end Text

theorem IsGap.classes {gap : List Char} (h : IsGap gap) :
    ∀ d ∈ gap.head?, isSpacing d = true ∨ d = '/' := by
  intro d hd
  cases h with
  | nil => cases hd
  | blank hc _ => exact .inl (Option.some.inj hd ▸ hc)
  | comment _ _ => exact .inr (Option.some.inj hd).symm

/-- In front of a gap that is not empty every token stops. -/
theorem TokenKind.SpelledBy.longest_of_gap {kind : TokenKind} {text gap rest : List Char}
    (h : kind.SpelledBy text) (hgap : IsGap gap) (hrest : gap = [] → rest = []) :
    Longest text (gap ++ rest) := by
  refine (longest_iff h).mpr fun d hd => ?_
  rw [Bool.eq_false_iff]
  intro hgoes
  obtain ⟨hspacing, hslash⟩ := goesOn_classes hgoes
  cases gap with
  | nil =>
    rw [hrest rfl] at hd
    cases hd
  | cons c cs =>
    obtain hblank | hcomment := hgap.classes d hd
    · rw [hspacing] at hblank
      cases hblank
    · exact hslash hcomment

/-! ### Reserved words in another case -/

/-- The lower case of a character is a letter or a digit if the character is. -/
theorem classes_lowerLetter (c : Char) :
    isLetter (lowerLetter c) = isLetter c ∧ (lowerLetter c).isDigit = c.isDigit := by
  by_cases hc : 'A' ≤ c ∧ c ≤ 'Z'
  · have hcapitals : ∀ k < 26,
        isLetter (lowerLetter (.ofNat (65 + k))) = isLetter (.ofNat (65 + k)) ∧
          (lowerLetter (.ofNat (65 + k))).isDigit = (Char.ofNat (65 + k)).isDigit := by decide
    exact of_mem_range (P := fun c => isLetter (lowerLetter c) = isLetter c ∧
      (lowerLetter c).isDigit = c.isDigit) hcapitals hc.1 (Nat.lt_succ_of_le hc.2)
  · have hsame : c.toLower = c := dif_neg hc
    unfold lowerLetter
    split
    · decide
    · decide
    · decide
    · decide
    · decide
    · decide
    · rw [hsame]
      exact ⟨rfl, rfl⟩

theorem isNameChar_lowerLetter (c : Char) : isNameChar (lowerLetter c) = isNameChar c := by
  rw [isNameChar, isNameChar, (classes_lowerLetter c).1, (classes_lowerLetter c).2]

theorem isWord_map_lowerLetter_iff {text : List Char} :
    IsWord (text.map lowerLetter) ↔ IsWord text := by
  cases text with
  | nil => simp [IsWord]
  | cons c cs => simp [IsWord, (classes_lowerLetter c).1, isNameChar_lowerLetter]

/-- A reserved word is the same in another case. -/
theorem TokenKind.SpelledBy.recased {k : Keyword} {text text' : List Char}
    (h : (keyword k).SpelledBy text) (hcase : text'.map lowerLetter = text.map lowerLetter) :
    (keyword k).SpelledBy text' := by
  obtain ⟨hword, hlower⟩ := h
  refine ⟨?_, hcase ▸ hlower⟩
  rwa [← isWord_map_lowerLetter_iff, hcase, isWord_map_lowerLetter_iff]

/-! ### The text of a token -/

namespace Span

theorem dropBytes?_width (before rest : List Char) :
    dropBytes? (width before) (before ++ rest) = some rest := by
  induction before with
  | nil => cases rest <;> rfl
  | cons c before ih =>
    obtain ⟨n, hn, hle, hrest⟩ := exists_width_cons c before
    rw [List.cons_append, hn, dropBytes?, if_pos hle, hrest, ih]

/-- The bytes of a text that stands there are taken. -/
theorem takeBytes?_width (text rest : List Char) :
    takeBytes? (width text) (text ++ rest) = some text := by
  induction text with
  | nil => cases rest <;> rfl
  | cons c text ih =>
    obtain ⟨n, hn, hle, hrest⟩ := exists_width_cons c text
    rw [List.cons_append, hn, takeBytes?, if_pos hle, hrest, ih]
    rfl

/-- The text that a span covers is the one between its ends. -/
theorem text_eq {span : Span} {source : String} {before text behind : List Char}
    (hsource : source.toList = before ++ text ++ behind) (hstart : span.start = width before)
    (hstop : span.stop = width (before ++ text)) : (span.text source).toList = text := by
  have hlength : span.stop - span.start = width text := by
    rw [hstart, hstop, width_append]
    omega
  rw [Span.text, hsource, List.append_assoc, hlength, hstart, dropBytes?_width]
  simp [takeBytes?_width]

end Span

/-- A token is what the text that it covers spells. -/
theorem Scan.spelledBy_text {source : String} {token : Token}
    (h : token ∈ (ofSource source).tokens) :
    token.kind.SpelledBy (token.span.text source).toList := by
  obtain ⟨before, text, behind, hsource, hstart, hstop, -, hspelled, -⟩ := exists_lexeme h
  rwa [Span.text_eq hsource hstart hstop]

/-! ### Tokens that are laid out -/

/-- A token of a source text is written once more: a reserved word in whatever case, and everything
else as it is. -/
def Token.WrittenAs (source : String) (token : Token) (text : List Char) : Prop :=
  match token.kind with
  | .keyword _ => text.map lowerLetter = (token.span.text source).toList.map lowerLetter
  | _ => text = (token.span.text source).toList

/-- What a token of a source text is written as spells its kind. -/
theorem Token.WrittenAs.spelledBy {source : String} {token : Token} {text : List Char}
    (h : token.WrittenAs source text) (hmem : token ∈ (Scan.ofSource source).tokens) :
    token.kind.SpelledBy text := by
  have hspelled := Scan.spelledBy_text hmem
  obtain ⟨kind, span⟩ := token
  cases kind with
  | keyword k => exact hspelled.recased h
  | _ => exact h ▸ hspelled

/-- Tokens of a source text are written once more, each with a gap behind it that may be empty only
behind the last. -/
inductive LaidOut (source : String) : List Token → List Char → Prop
  | nil : LaidOut source [] []
  | cons {token : Token} {tokens : List Token} {text gap rest : List Char}
    (htext : token.WrittenAs source text) (hgap : IsGap gap) (hapart : gap = [] → tokens = [])
    (hrest : LaidOut source tokens rest) : LaidOut source (token :: tokens) (text ++ (gap ++ rest))

namespace LaidOut

variable {source : String} {tokens : List Token} {cs : List Char}

theorem eq_nil (h : LaidOut source [] cs) : cs = [] := by
  cases h
  rfl

/-- What is found in tokens that are laid out is their kinds. -/
theorem content_eq (h : LaidOut source tokens cs)
    (hmem : ∀ token ∈ tokens, token ∈ (Scan.ofSource source).tokens) :
    Text.content cs = (tokens.map Token.kind).map .inl := by
  induction h with
  | nil => rfl
  | @cons token tokens text gap rest htext hgap hapart hrest ih =>
    obtain ⟨hfirst, hmem⟩ := List.forall_mem_cons.mp hmem
    have hspelled := htext.spelledBy hfirst
    have hend (hnil : gap = []) : rest = [] := (hapart hnil ▸ hrest).eq_nil
    have hfits : (Piece.lexeme token.kind text).Fits (gap ++ rest) :=
      ⟨hspelled, hspelled.longest_of_gap hgap hend⟩
    calc Text.content (text ++ (gap ++ rest))
        = .inl token.kind :: Text.content (gap ++ rest) := Text.content_of_fits hfits
      _ = .inl token.kind :: Text.content rest := by rw [Text.content_gap hgap]
      _ = _ := by rw [ih hmem]; rfl

end LaidOut

end Lucha
