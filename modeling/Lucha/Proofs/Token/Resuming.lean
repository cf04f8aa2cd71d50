import Lucha.Proofs.Token.Passing

/-!
# Going on from a token

A source text can be cut in front of one of its tokens, or at its end. A lexer that has come to that
token goes on as a lexer does that begins with the text behind the cut: both find the same pieces,
and so tokens of the same kinds and the same stray characters, although at other places
(`Lexer.exists_resumed`).
-/

namespace Lucha

/-! ### Pieces and their positions -/

namespace Placed

@[simp]
theorem map_piece_place (p : Position) (pieces : List Piece) :
    (place p pieces).map piece = pieces := by
  induction pieces generalizing p with
  | nil => rfl
  | cons first rest ih => exact congrArg (first :: ·) (ih _)

/-- A placed piece stands behind the text of those before it. -/
theorem position_eq {p : Position} {pieces : List Piece} {before behind : List Placed}
    {placed : Placed} (h : place p pieces = before ++ placed :: behind) :
    placed.position = p.after ((before.map piece).flatMap Piece.text) := by
  induction before generalizing p pieces with
  | nil =>
    obtain _ | ⟨first, rest⟩ := pieces
    · cases h
    · obtain ⟨rfl, -⟩ := List.cons.inj h
      rfl
  | cons other before ih =>
    obtain _ | ⟨first, rest⟩ := pieces
    · cases h
    · obtain ⟨rfl, hrest⟩ := List.cons.inj h
      rw [ih hrest, List.map_cons, List.flatMap_cons, Position.after_append]

/-- Placed pieces that are the same have tokens of the same kinds. -/
theorem kinds_alike {xs ys : List Placed} (h : xs.map piece = ys.map piece) :
    (xs.filterMap token?).map Token.kind = (ys.filterMap token?).map Token.kind := by
  have hkinds (zs : List Placed) : (zs.filterMap token?).map Token.kind
      = (zs.map piece).filterMap fun piece => piece.found?.bind Sum.getLeft? := by
    rw [List.map_filterMap, List.filterMap_map]
    refine List.filterMap_congr fun placed _ => ?_
    obtain ⟨piece, position⟩ := placed
    cases piece <;> rfl
  rw [hkinds, hkinds, h]

end Placed

namespace Scan

/-- A source text can be cut in front of a piece that is a token, and behind the cut it falls into
that piece and those behind it. -/
theorem exists_back {cs : List Char} {before behind : List Placed} {placed : Placed} {token : Token}
    (h : (ofChars cs).pieces = before ++ placed :: behind) (hplaced : placed.token? = some token) :
    ∃ front back, cs = front ++ back ∧ width front = token.span.start ∧
      (ofChars back).pieces.map Placed.piece = (placed :: behind).map Placed.piece := by
  have hpieces : Piece.ofChars cs
      = before.map Placed.piece ++ (placed :: behind).map Placed.piece := by
    rw [← List.map_append, ← h]
    exact (Placed.map_piece_place .start _).symm
  have htext := Piece.flatMap_text_ofChars cs
  have hfit := Piece.fitTogether_ofChars cs
  rw [hpieces] at htext hfit
  rw [List.flatMap_append] at htext
  refine ⟨_, _, htext.symm, ?_, ?_⟩
  · obtain ⟨piece, position⟩ := placed
    cases piece <;> cases hplaced
    rw [← Span.start_covering _ [], ← Placed.position_eq h]
    rfl
  · exact (Placed.map_piece_place .start _).trans
      (Piece.ofChars_of_fitTogether (Piece.fitTogether_append hfit))

end Scan

/-! ### Lexers with the same pieces ahead -/

namespace Lexer

variable {l l' : Lexer}

/-- The search for a token passes the same characters over the same pieces, wherever they stand. -/
theorem seek_alike {xs ys : List Placed} (h : xs.map Placed.piece = ys.map Placed.piece) :
    (seek xs).2.1.map Stray.char = (seek ys).2.1.map Stray.char ∧
      (seek xs).2.2.map Placed.piece = (seek ys).2.2.map Placed.piece := by
  induction xs generalizing ys with
  | nil =>
    obtain rfl := List.map_eq_nil_iff.mp h.symm
    exact ⟨rfl, rfl⟩
  | cons x xs ih =>
    obtain ⟨⟨piece, q⟩, ys, rfl, hpiece, hys⟩ := List.map_eq_cons_iff.mp h.symm
    obtain ⟨_, p⟩ := x
    cases hpiece
    obtain ⟨hstrays, hbehind⟩ := ih hys.symm
    cases piece with
    | lexeme kind text => exact ⟨rfl, hys.symm⟩
    | stray c => exact ⟨congrArg (c :: ·) hstrays, hbehind⟩
    | spacing text => exact ⟨hstrays, hbehind⟩
    | comment text => exact ⟨hstrays, hbehind⟩

/-- Lexers that have the same pieces ahead pass the same stray characters. -/
theorem exists_strays_afterTaking (h : l.ahead.map Placed.piece = l'.ahead.map Placed.piece)
    (n : Nat) : ∃ more more', (l.afterTaking n).strays = l.strays ++ more ∧
      (l'.afterTaking n).strays = l'.strays ++ more' ∧
        more.map Stray.char = more'.map Stray.char := by
  induction n generalizing l l' with
  | zero => exact ⟨[], [], (List.append_nil _).symm, (List.append_nil _).symm, rfl⟩
  | succ n ih =>
    obtain ⟨hstrays, hbehind⟩ := seek_alike h
    have htaken : l.take.2.ahead.map Placed.piece = l'.take.2.ahead.map Placed.piece := hbehind
    obtain ⟨more, more', hmore, hmore', hchars⟩ := ih htaken
    refine ⟨(seek l.ahead).2.1 ++ more, (seek l'.ahead).2.1 ++ more', ?_, ?_, ?_⟩
    · exact hmore.trans (List.append_assoc ..)
    · exact hmore'.trans (List.append_assoc ..)
    · rw [List.map_append, List.map_append, hstrays, hchars]

theorem afterTaking_add (l : Lexer) (m n : Nat) :
    l.afterTaking (m + n) = (l.afterTaking m).afterTaking n := by
  induction m generalizing l with
  | zero => rw [Nat.zero_add]; rfl
  | succ m ih => rw [Nat.succ_add]; exact ih l.take.2

/-- A source text can be cut in front of a token, or at its end. The text behind the cut has tokens
of the kinds of those not yet taken, and a lexer that has taken the first of them there has passed
nothing and has the same pieces ahead as the one that has come to it from the start. -/
theorem exists_cut {source : String} {taken rest : List Token}
    (h : (Scan.ofSource source).tokens = taken ++ rest) :
    ∃ front back, source.toList = front ++ back ∧
      width front = (rest.head?.getD (Scan.ofSource source).endToken).span.start ∧
      (Scan.ofChars back).tokens.map Token.kind = rest.map Token.kind ∧
      let l := (ofSource source).afterTaking (taken.length + 1)
      let l' := (ofSource (String.ofList back)).take.2
      l'.strays = [] ∧ l.ahead.map Placed.piece = l'.ahead.map Placed.piece := by
  cases rest with
  | nil =>
    refine ⟨source.toList, [], (List.append_nil _).symm,
      (Scan.span_endToken source.toList).1.symm, rfl, rfl, ?_⟩
    rw [List.append_nil] at h
    exact congrArg (List.map Placed.piece) (ahead_afterTaking_of_all h)
  | cons token later =>
    obtain ⟨before, placed, hahead, htaken, hplaced, -⟩ :=
      exists_afterTaking (l := ofSource source) h
    generalize (ofSource source).afterTaking (taken.length + 1) = l at hahead ⊢
    obtain ⟨front, back, hsource, hwidth, hback⟩ := Scan.exists_back hahead hplaced
    have hrest : taken ++ token :: later
        = taken ++ (placed :: l.ahead).filterMap Placed.token? := by
      rw [← h, ← htaken, ← List.filterMap_append, ← hahead]
      rfl
    have hseek : seek (placed :: l.ahead) = (some token, [], l.ahead) := by
      rw [seek, hplaced]
    have hfresh : (ofSource (String.ofList back)).ahead = (Scan.ofChars back).pieces := by
      rw [ofSource, Scan.ofSource, String.toList_ofList]
    obtain ⟨hstrays, hbehind⟩ := seek_alike hback
    rw [hseek, ← hfresh] at hstrays hbehind
    refine ⟨front, back, hsource, hwidth, ?_, List.map_eq_nil_iff.mp hstrays, hbehind.symm⟩
    rw [List.append_cancel_left hrest]
    exact Placed.kinds_alike hback

/-- A source text can be cut in front of a token, or at its end. Behind the cut there are tokens of
the kinds of those not yet taken. A lexer that goes on there from the start of the text passes more
strays, with the characters that a lexer passes that begins behind the cut. -/
theorem exists_resumed {source : String} {taken rest : List Token}
    (h : (Scan.ofSource source).tokens = taken ++ rest) :
    ∃ front back, source.toList = front ++ back ∧
      width front = (rest.head?.getD (Scan.ofSource source).endToken).span.start ∧
      (Scan.ofChars back).tokens.map Token.kind = rest.map Token.kind ∧
      ∀ n, ∃ more, ((ofSource source).afterTaking (taken.length + n + 1)).strays
          = ((ofSource source).afterTaking (taken.length + 1)).strays ++ more ∧
        more.map Stray.char
          = ((ofSource (String.ofList back)).afterTaking (n + 1)).strays.map Stray.char := by
  obtain ⟨front, back, hsource, hwidth, hkinds, hfresh, hahead⟩ := exists_cut h
  refine ⟨front, back, hsource, hwidth, hkinds, fun n => ?_⟩
  obtain ⟨more, more', hmore, hmore', hchars⟩ := exists_strays_afterTaking hahead n
  refine ⟨more, ?_, ?_⟩
  · rw [Nat.add_right_comm, afterTaking_add, hmore]
  · rw [hchars, afterTaking, hmore', hfresh, List.nil_append]

end Lexer

end Lucha
