import Lucha.Proofs.Token.Cut

/-!
# The lexer takes a source text apart

Every character of a source text belongs to one of its pieces (`Piece.exists_holds`,
`Piece.Holds.unique`). The spans of the tokens cover the characters of the lexemes
(`Piece.Holds.covered_iff`), the strays are the characters that are pieces of their own, and which
characters belong to comments can be said without looking at the pieces: those with two slashes at
them or before them on their line (`Piece.Holds.inComment_iff`). So nothing of a source text is lost
and nothing is told twice (`Lexer.tokens_partition`).
-/

namespace Lucha

/-- The number of bytes of some characters. -/
def width (cs : List Char) : Nat :=
  (String.ofList cs).utf8ByteSize

theorem width_append (cs ds : List Char) : width (cs ++ ds) = width cs + width ds := by
  rw [width, String.ofList_append, String.utf8ByteSize_append]
  rfl

theorem width_cons (c : Char) (cs : List Char) : width (c :: cs) = c.utf8Size + width cs := by
  rw [← List.singleton_append, width_append]
  exact congrArg (· + width cs) (String.utf8ByteSize_singleton)

theorem width_pos {cs : List Char} (h : cs ≠ []) : 0 < width cs := by
  obtain ⟨c, cs, rfl⟩ := List.exists_cons_of_ne_nil h
  rw [width_cons]
  exact Nat.add_pos_left c.utf8Size_pos _

/-- The first character takes a byte at least, and the others take the rest. -/
theorem exists_width_cons (c : Char) (cs : List Char) :
    ∃ n, width (c :: cs) = n + 1 ∧ c.utf8Size ≤ n + 1 ∧ n + 1 - c.utf8Size = width cs := by
  have hcons := width_cons c cs
  obtain ⟨n, hn⟩ := Nat.exists_eq_add_one.mpr (width_pos (List.cons_ne_nil c cs))
  exact ⟨n, hn, by omega, by omega⟩

namespace Span

theorem start_covering (before text : List Char) :
    (covering (Position.start.after before) text).start = width before :=
  (Position.offset_after .start before).trans (Nat.zero_add _)

theorem stop_covering (before text : List Char) :
    (covering (Position.start.after before) text).stop = width (before ++ text) :=
  (congrArg Position.offset (Position.after_append ..).symm).trans
    ((Position.offset_after .start (before ++ text)).trans (Nat.zero_add _))

end Span

/-- A character with the place that some text before it leads to. -/
def Stray.behind (before : List Char) (c : Char) : Stray :=
  ⟨c, (Position.start.after before).line, (Position.start.after before).column⟩

/-- Different starts of a text lead to different places. -/
theorem eq_of_prefix {before before' cs : List Char} (h : before <+: cs) (h' : before' <+: cs)
    (hline : (Position.start.after before).line = (Position.start.after before').line)
    (hcolumn : (Position.start.after before).column = (Position.start.after before').column) :
    before = before' := by
  have hnot {a m : List Char} (heq : (Position.start.after a).line
      = (Position.start.after (a ++ m)).line ∧ (Position.start.after a).column
        = (Position.start.after (a ++ m)).column) : m = [] := by
    by_contra hne
    have hbefore := (Position.start.after a).before_after_of_ne_nil hne
    rw [← Position.after_append, Position.Before] at hbefore
    omega
  obtain ⟨m, rfl⟩ | ⟨m, rfl⟩ := List.prefix_or_prefix_of_prefix h h'
  · rw [hnot ⟨hline, hcolumn⟩, List.append_nil]
  · rw [hnot ⟨hline.symm, hcolumn.symm⟩, List.append_nil]

/-! ### Comments -/

/-- A comment began before a place on its line: two slashes stand there, the second one perhaps just
behind the place. -/
def CommentOpen (before behind : List Char) : Prop :=
  ∃ head line, before = head ++ line ∧ line ≠ [] ∧ '\n' ∉ line ∧ ['/', '/'] <+: line ++ behind

/-- A character is part of a comment: two slashes stand at it or before it on its line. -/
def InComment (before : List Char) (c : Char) (behind : List Char) : Prop :=
  CommentOpen (before ++ [c]) behind

theorem not_commentOpen_nil (behind : List Char) : ¬ CommentOpen [] behind := by
  rintro ⟨head, line, happend, hne, -⟩
  exact hne (List.append_eq_nil_iff.mp happend.symm).2

/-- A character is part of a comment if it does not end the line and a comment is open before it or
begins with it. -/
theorem inComment_iff {before behind : List Char} {c : Char} :
    InComment before c behind ↔
      c ≠ '\n' ∧ (CommentOpen before (c :: behind) ∨ ['/', '/'] <+: c :: behind) := by
  constructor
  · rintro ⟨head, line, happend, hne, hline, hslashes⟩
    obtain ⟨front, d, rfl⟩ := (List.eq_nil_or_concat line).resolve_left hne
    rw [List.concat_eq_append] at *
    rw [← List.append_assoc, List.append_singleton_inj] at happend
    obtain ⟨rfl, rfl⟩ := happend
    rw [List.mem_append, List.mem_singleton, not_or] at hline
    rw [List.append_assoc] at hslashes
    refine ⟨fun hc => hline.2 hc.symm, ?_⟩
    by_cases hfront : front = []
    · subst hfront
      exact .inr hslashes
    · exact .inl ⟨head, front, rfl, hfront, hline.1, hslashes⟩
  · rintro ⟨hc, ⟨head, line, rfl, hne, hline, hslashes⟩ | hslashes⟩
    · refine ⟨head, line ++ [c], List.append_assoc .., by simp, ?_, by simpa using hslashes⟩
      rw [List.mem_append, List.mem_singleton, not_or]
      exact ⟨hline, fun heq => hc heq.symm⟩
    · exact ⟨before, [c], rfl, by simp, by simpa using fun heq => hc heq.symm, hslashes⟩

/-! ### The piece that a character belongs to -/

namespace Placed

/-- A piece stands behind those before it. -/
theorem mem_place_iff {p : Position} {pieces : List Piece} {placed : Placed} :
    placed ∈ place p pieces ↔ ∃ xs ys, pieces = xs ++ placed.piece :: ys ∧
      placed.position = p.after (xs.flatMap Piece.text) := by
  induction pieces generalizing p with
  | nil => simp [place]
  | cons piece rest ih =>
    rw [place, List.mem_cons, ih]
    constructor
    · rintro (rfl | ⟨xs, ys, rfl, hposition⟩)
      · exact ⟨[], rest, rfl, rfl⟩
      · refine ⟨piece :: xs, ys, rfl, ?_⟩
        rw [hposition, List.flatMap_cons, Position.after_append]
    · rintro ⟨_ | ⟨_, xs⟩, ys, hpieces, hposition⟩
      · obtain ⟨rfl, rfl⟩ := List.cons.inj hpieces
        exact .inl (Placed.mk.injEq .. ▸ ⟨rfl, hposition⟩)
      · obtain ⟨rfl, rfl⟩ := List.cons.inj hpieces
        refine .inr ⟨xs, ys, rfl, ?_⟩
        rw [hposition, List.flatMap_cons, Position.after_append]

end Placed

namespace Scan

/-- The tokens of a scan are the lexemes among the pieces, each where it stands. -/
theorem mem_tokens_iff {cs : List Char} {token : Token} :
    token ∈ (ofChars cs).tokens ↔ ∃ xs kind text ys,
      Piece.ofChars cs = xs ++ .lexeme kind text :: ys ∧
        token = ⟨kind, .covering (Position.start.after (xs.flatMap Piece.text)) text⟩ := by
  rw [tokens, List.mem_filterMap]
  constructor
  · rintro ⟨⟨piece, position⟩, hplaced, htoken⟩
    obtain ⟨xs, ys, hpieces, hposition⟩ := Placed.mem_place_iff.mp hplaced
    cases piece <;> cases htoken
    exact ⟨xs, _, _, ys, hpieces, by rw [← hposition]⟩
  · rintro ⟨xs, kind, text, ys, hpieces, rfl⟩
    exact ⟨⟨.lexeme kind text, _⟩, Placed.mem_place_iff.mpr ⟨xs, ys, hpieces, rfl⟩, rfl⟩

/-- The stray characters of a scan are those among the pieces, each where it stands. -/
theorem mem_strays_iff {cs : List Char} {stray : Stray} :
    stray ∈ (ofChars cs).strays ↔ ∃ xs c ys, Piece.ofChars cs = xs ++ .stray c :: ys ∧
      stray = .behind (xs.flatMap Piece.text) c := by
  rw [strays, List.mem_filterMap]
  constructor
  · rintro ⟨⟨piece, position⟩, hplaced, hstray⟩
    obtain ⟨xs, ys, hpieces, hposition⟩ := Placed.mem_place_iff.mp hplaced
    cases piece <;> cases hstray
    exact ⟨xs, _, ys, hpieces, by rw [Stray.behind, ← hposition]⟩
  · rintro ⟨xs, c, ys, hpieces, rfl⟩
    exact ⟨⟨.stray c, _⟩, Placed.mem_place_iff.mpr ⟨xs, ys, hpieces, rfl⟩, rfl⟩

end Scan

namespace Piece

/-- A character belongs to one of some pieces: before it and behind it stand the rest of its piece
and the other pieces. -/
def Holds (pieces : List Piece) (before : List Char) (c : Char) (behind : List Char)
    (piece : Piece) : Prop :=
  ∃ xs ys s t, pieces = xs ++ piece :: ys ∧ piece.text = s ++ c :: t ∧
    before = xs.flatMap text ++ s ∧ behind = t ++ ys.flatMap text

variable {pieces xs ys xs' ys' : List Piece} {piece piece' : Piece} {before behind : List Char}
  {c : Char}

/-- Every character of a text belongs to one of its pieces. -/
theorem exists_holds (h : pieces.flatMap text = before ++ c :: behind) :
    ∃ piece, Holds pieces before c behind piece := by
  induction pieces generalizing before with
  | nil => simp at h
  | cons first rest ih =>
    have hbehind (front : List Char) (hbefore : before = first.text ++ front)
        (h : rest.flatMap text = front ++ c :: behind) :
        ∃ piece, Holds (first :: rest) before c behind piece := by
      obtain ⟨piece, xs, ys, s, t, rfl, htext, rfl, hrest⟩ := ih h
      exact ⟨piece, first :: xs, ys, s, t, rfl, htext, by simp [hbefore], hrest⟩
    rw [List.flatMap_cons, List.append_eq_append_iff] at h
    obtain ⟨front, hbefore, hrest⟩ | ⟨front, hfirst, hrest⟩ := h
    · exact hbehind front hbefore hrest
    · cases front with
      | nil => exact hbehind [] (by simpa using hfirst.symm) hrest.symm
      | cons d front =>
        obtain ⟨rfl, rfl⟩ : c = d ∧ behind = front ++ rest.flatMap text := List.cons.inj hrest
        exact ⟨first, [], rest, before, front, rfl, hfirst, rfl, rfl⟩

/-- Of two pieces among the same ones the earlier one ends before the later one begins. -/
private theorem width_le_of_earlier {m : List Piece} (h : xs' = xs ++ piece :: m) :
    width (xs.flatMap text ++ piece.text) ≤ width (xs'.flatMap text) := by
  rw [h, List.flatMap_append, List.flatMap_cons, ← List.append_assoc,
    width_append (_ ++ piece.text)]
  exact Nat.le_add_right _ _

/-- Two pieces among the same ones that reach over one byte are one. -/
theorem eq_of_overlap (h : xs ++ piece :: ys = xs' ++ piece' :: ys') {n : Nat}
    (hstart : width (xs.flatMap text) ≤ n) (hstop : n < width (xs.flatMap text ++ piece.text))
    (hstart' : width (xs'.flatMap text) ≤ n)
    (hstop' : n < width (xs'.flatMap text ++ piece'.text)) :
    xs = xs' ∧ piece = piece' ∧ ys = ys' := by
  obtain ⟨m, hxs, hrest⟩ | ⟨m, hxs, hrest⟩ := List.append_eq_append_iff.mp h
  · obtain _ | ⟨_, m⟩ := m
    · exact ⟨by simpa using hxs.symm, List.cons.inj hrest⟩
    · obtain ⟨rfl, -⟩ := List.cons.inj hrest
      have hle := width_le_of_earlier hxs
      omega
  · obtain _ | ⟨_, m⟩ := m
    · exact ⟨by simpa using hxs, (List.cons.inj hrest).imp Eq.symm Eq.symm⟩
    · obtain ⟨rfl, -⟩ := List.cons.inj hrest
      have hle := width_le_of_earlier hxs
      omega

namespace Holds

theorem flatMap_text (h : Holds pieces before c behind piece) :
    pieces.flatMap text = before ++ c :: behind := by
  obtain ⟨xs, ys, s, t, rfl, htext, rfl, rfl⟩ := h
  simp [htext]

/-- The bytes of a character are among those of its piece. -/
theorem width_bounds (xs : List Piece) {s t : List Char} (htext : piece.text = s ++ c :: t) :
    width (xs.flatMap text) ≤ width (xs.flatMap text ++ s) ∧
      width (xs.flatMap text ++ s) < width (xs.flatMap text ++ piece.text) := by
  have hpos := width_pos (List.cons_ne_nil c t)
  rw [htext, width_append, width_append, width_append]
  omega

/-- A character belongs to the piece that reaches over its first byte. -/
theorem eq_of_width (h : Holds pieces before c behind piece) (hpieces : pieces = xs ++ piece' :: ys)
    (hstart : width (xs.flatMap text) ≤ width before)
    (hstop : width before < width (xs.flatMap text ++ piece'.text)) : piece = piece' := by
  obtain ⟨xs', ys', s, t, hpieces', htext, rfl, rfl⟩ := h
  obtain ⟨hstart', hstop'⟩ := width_bounds xs' htext
  exact (eq_of_overlap (hpieces'.symm.trans hpieces) hstart' hstop' hstart hstop).2.1

/-- A character belongs to one piece. -/
theorem unique (h : Holds pieces before c behind piece) (h' : Holds pieces before c behind piece') :
    piece = piece' := by
  obtain ⟨xs, ys, s, t, hpieces, htext, rfl, rfl⟩ := h'
  obtain ⟨hstart, hstop⟩ := width_bounds xs htext
  exact h.eq_of_width hpieces hstart hstop

/-- The tokens cover the characters of the lexemes. -/
theorem covered_iff {cs : List Char} (h : Holds (ofChars cs) before c behind piece) :
    (∃ token ∈ (Scan.ofChars cs).tokens,
      token.span.start ≤ width before ∧ width before < token.span.stop) ↔
        ∃ kind text, piece = lexeme kind text := by
  constructor
  · rintro ⟨token, htoken, hstart, hstop⟩
    obtain ⟨xs, kind, text, ys, hpieces, rfl⟩ := Scan.mem_tokens_iff.mp htoken
    simp only [Span.start_covering, Span.stop_covering] at hstart hstop
    exact ⟨kind, text, h.eq_of_width hpieces hstart hstop⟩
  · rintro ⟨kind, text, rfl⟩
    obtain ⟨xs, ys, s, t, hpieces, htext, rfl, rfl⟩ := h
    refine ⟨_, Scan.mem_tokens_iff.mpr ⟨xs, kind, text, ys, hpieces, rfl⟩, ?_⟩
    simp only [Span.start_covering, Span.stop_covering]
    exact width_bounds xs htext

end Holds

/-! ### The characters of comments -/

/-- No comment is open before a text, unless the text ends the line or there is no more. -/
def Clear (before rest : List Char) : Prop :=
  ∀ d ∈ rest.head?, d ≠ '\n' → ¬ CommentOpen before rest

/-- A piece that is no comment has no two slashes in a row, nor one before another. -/
theorem Fits.not_slashes {rest s t : List Char} {d : Char} (h : piece.Fits rest)
    (hnone : ∀ text, piece ≠ comment text) (htext : piece.text = s ++ d :: t) :
    ¬ ['/', '/'] <+: d :: (t ++ rest) := by
  rintro ⟨tail, htail⟩
  obtain ⟨rfl, hslash⟩ := List.cons.inj htail
  have hmem : '/' ∈ piece.text := htext ▸ List.mem_append_right s List.mem_cons_self
  cases piece with
  | spacing text =>
    have hspacing := h.2.1 '/' hmem
    cases hspacing
  | comment text => exact hnone text rfl
  | lexeme kind text => exact (h.1.classes hmem).2 rfl
  | stray e =>
    obtain ⟨rfl, hpair⟩ | ⟨_, hnil⟩ := List.cons_eq_append_iff.mp htext
    · obtain ⟨rfl, rfl⟩ := List.cons.inj hpair
      rw [List.nil_append] at hslash
      exact h.2.1 ⟨rfl, hslash ▸ rfl⟩
    · simp at hnil

/-- Within a piece that is no comment none is open, if none is open before it. -/
theorem Fits.not_inComment {before rest s t : List Char} (h : piece.Fits rest)
    (hclear : Clear before (piece.text ++ rest)) (hnone : ∀ text, piece ≠ comment text)
    (htext : piece.text = s ++ c :: t) : ¬ InComment (before ++ s) c (t ++ rest) := by
  induction s using List.reverseRecOn generalizing c t with
  | nil =>
    rw [inComment_iff]
    rintro ⟨hc, hopen | hopen⟩
    · rw [htext] at hclear
      exact hclear c rfl hc (by simpa using hopen)
    · exact h.not_slashes hnone htext hopen
  | append_singleton s d ih =>
    have hbefore := ih (htext.trans (List.append_cons s d (c :: t)).symm)
    rw [inComment_iff]
    rintro ⟨hc, hopen | hopen⟩
    · exact hbefore (by rwa [InComment, List.append_assoc])
    · exact h.not_slashes hnone htext hopen

/-- All characters of a comment are part of one. -/
theorem inComment_of_comment {text before rest s t : List Char} (h : (comment text).Fits rest)
    (htext : text = s ++ c :: t) : InComment (before ++ s) c (t ++ rest) := by
  obtain ⟨⟨body, hslashes, hbody⟩, -⟩ := h
  refine ⟨before, s ++ [c], List.append_assoc .., by simp, fun hmem => ?_, body ++ rest, ?_⟩
  · have htail : '\n' ∈ text := htext ▸ List.append_cons s c t ▸ List.mem_append_left t hmem
    rw [hslashes] at htail
    exact hbody (by simpa using htail)
  · have happend : s ++ c :: t = '/' :: '/' :: body := htext.symm.trans hslashes
    calc ['/', '/'] ++ (body ++ rest)
        = (s ++ c :: t) ++ rest := by rw [happend]; rfl
      _ = s ++ [c] ++ (t ++ rest) := by simp

/-- If no comment is open before a piece, none is behind it. -/
theorem Fits.clear {before rest : List Char} (h : piece.Fits rest)
    (hclear : Clear before (piece.text ++ rest)) : Clear (before ++ piece.text) rest := by
  intro d hd hline hopen
  by_cases hnone : ∀ text, piece ≠ comment text
  · obtain ⟨s, e, htext⟩ := (List.eq_nil_or_concat piece.text).resolve_left h.text_ne_nil
    rw [List.concat_eq_append] at htext
    refine h.not_inComment hclear hnone htext (?_ : CommentOpen _ _)
    rwa [List.append_assoc, ← htext]
  · obtain ⟨text, rfl⟩ : ∃ text, piece = comment text := by simpa using hnone
    exact hline (h.2 d hd)

/-- No comment is open between two pieces of a text. -/
theorem clear_of_fitTogether {before : List Char} (h : FitTogether (xs ++ ys))
    (hclear : Clear before ((xs ++ ys).flatMap text)) :
    Clear (before ++ xs.flatMap text) (ys.flatMap text) := by
  induction xs generalizing before with
  | nil => simpa using hclear
  | cons x xs ih =>
    rw [List.flatMap_cons, ← List.append_assoc]
    exact ih h.2 (h.1.clear hclear)

namespace Holds

variable {cs : List Char}

/-- A piece of a text belongs before those behind it. -/
theorem fits (h : ofChars cs = xs ++ piece :: ys) : piece.Fits (ys.flatMap text) :=
  (fitTogether_append (h ▸ fitTogether_ofChars cs) : FitTogether (piece :: ys)).1

theorem exists_fits (h : Holds (ofChars cs) before c behind piece) :
    c ∈ piece.text ∧ ∃ rest, piece.Fits rest := by
  obtain ⟨xs, ys, s, t, hpieces, htext, -, -⟩ := h
  exact ⟨htext ▸ List.mem_append_right s List.mem_cons_self, _, fits hpieces⟩

/-- The characters of comments are those of the pieces that are comments. -/
theorem inComment_iff (h : Holds (ofChars cs) before c behind piece) :
    InComment before c behind ↔ ∃ text, piece = comment text := by
  obtain ⟨xs, ys, s, t, hpieces, htext, rfl, rfl⟩ := h
  have hfits := fits hpieces
  constructor
  · intro hin
    by_contra hnone
    have hclear : Clear ([] ++ xs.flatMap Piece.text) ((piece :: ys).flatMap Piece.text) :=
      clear_of_fitTogether (hpieces ▸ fitTogether_ofChars cs)
        fun _ _ _ => not_commentOpen_nil _
    exact hfits.not_inComment hclear (fun text heq => hnone ⟨text, heq⟩) htext hin
  · rintro ⟨text, rfl⟩
    exact inComment_of_comment hfits htext

/-- The stray characters are those that are pieces of their own. -/
theorem stray_iff (h : Holds (ofChars cs) before c behind piece) :
    Stray.behind before c ∈ (Scan.ofChars cs).strays ↔ piece = stray c := by
  constructor
  · intro hstray
    obtain ⟨xs, d, ys, hpieces, heq⟩ := Scan.mem_strays_iff.mp hstray
    obtain ⟨rfl, hline, hcolumn⟩ := Stray.mk.injEq .. ▸ heq
    have hprefix : before <+: (ofChars cs).flatMap Piece.text :=
      h.flatMap_text ▸ List.prefix_append _ _
    have hprefix' : xs.flatMap Piece.text <+: (ofChars cs).flatMap Piece.text := by
      rw [hpieces, List.flatMap_append]
      exact List.prefix_append _ _
    obtain rfl := eq_of_prefix hprefix hprefix' hline hcolumn
    refine h.eq_of_width hpieces le_rfl ?_
    rw [width_append]
    exact Nat.lt_add_of_pos_right (width_pos (List.cons_ne_nil c []))
  · rintro rfl
    obtain ⟨xs, ys, s, t, hpieces, htext, rfl, rfl⟩ := h
    obtain ⟨rfl, -⟩ : s = [] ∧ t = [] := by
      simpa using (List.singleton_eq_append_iff.mp htext)
    rw [List.append_nil]
    exact Scan.mem_strays_iff.mpr ⟨xs, c, ys, hpieces, rfl⟩

end Holds

end Piece

/-! ### Where tokens and strays stand -/

theorem Placed.pairwise_offsets (p : Position) (pieces : List Piece) :
    (place p pieces).Pairwise fun a b =>
      (a.position.after a.piece.text).offset ≤ b.position.offset := by
  induction pieces generalizing p with
  | nil => exact .nil
  | cons piece rest ih =>
    refine .cons (fun placed hplaced => ?_) (ih _)
    obtain ⟨xs, ys, -, hposition⟩ := mem_place_iff.mp hplaced
    rw [hposition, Position.offset_after _ (xs.flatMap _)]
    exact Nat.le_add_right _ _

namespace Scan

/-- A token covers the longest stretch of characters from its start on that spells a kind. -/
theorem exists_lexeme {cs : List Char} {token : Token} (h : token ∈ (ofChars cs).tokens) :
    ∃ before text behind, cs = before ++ text ++ behind ∧ token.span.start = width before ∧
      token.span.stop = width (before ++ text) ∧ token.span.start < token.span.stop ∧
      token.kind.SpelledBy text ∧ TokenKind.Longest text behind := by
  obtain ⟨xs, kind, text, ys, hpieces, rfl⟩ := mem_tokens_iff.mp h
  have hfits := Piece.Holds.fits hpieces
  refine ⟨_, text, ys.flatMap Piece.text, ?_, Span.start_covering _ text,
    Span.stop_covering _ text, ?_, hfits⟩
  · rw [← Piece.flatMap_text_ofChars cs, hpieces, List.flatMap_append, List.append_assoc]
    rfl
  · simp only [Span.start_covering, Span.stop_covering, width_append]
    exact Nat.lt_add_of_pos_right (width_pos hfits.1.ne_nil)

theorem kind_ne_endOfInput {cs : List Char} {token : Token} (h : token ∈ (ofChars cs).tokens) :
    token.kind ≠ .endOfInput := by
  intro heq
  have hlegible := legible_of_mem_tokens h
  rw [heq] at hlegible
  exact hlegible

/-- The token that ends a text covers nothing behind it. -/
theorem span_endToken (cs : List Char) :
    (ofChars cs).endToken.span.start = width cs ∧ (ofChars cs).endToken.span.stop = width cs := by
  refine ⟨Span.start_covering cs [], (Span.stop_covering cs []).trans ?_⟩
  rw [List.append_nil]

/-- A stray is neither blank nor part of a comment, and no token begins with it. -/
theorem exists_stray {cs : List Char} {stray : Stray} (h : stray ∈ (ofChars cs).strays) :
    ∃ before c behind, cs = before ++ c :: behind ∧ stray = .behind before c ∧
      isSpacing c = false ∧ ¬ InComment before c behind ∧
      ∀ (text : List Char) (kind : TokenKind), text <+: c :: behind → ¬ kind.SpelledBy text := by
  obtain ⟨xs, c, ys, hpieces, rfl⟩ := mem_strays_iff.mp h
  have hholds : Piece.Holds (Piece.ofChars cs) (xs.flatMap Piece.text) c (ys.flatMap Piece.text)
      (.stray c) := ⟨xs, ys, [], [], hpieces, rfl, (List.append_nil _).symm, rfl⟩
  obtain ⟨hspacing, -, hnone⟩ := Piece.Holds.fits hpieces
  refine ⟨_, c, _, ?_, rfl, hspacing, ?_, hnone⟩
  · rw [← hholds.flatMap_text, Piece.flatMap_text_ofChars]
  · rw [hholds.inComment_iff]
    rintro ⟨text, ⟨⟩⟩

/-- A character that no token covers is blank, part of a comment or stray. -/
theorem not_covered_iff {cs before behind : List Char} {c : Char}
    (h : cs = before ++ c :: behind) :
    (∀ token ∈ (ofChars cs).tokens,
        ¬ (token.span.start ≤ width before ∧ width before < token.span.stop)) ↔
      isSpacing c = true ∨ InComment before c behind ∨ .behind before c ∈ (ofChars cs).strays := by
  obtain ⟨piece, hpiece⟩ := Piece.exists_holds ((Piece.flatMap_text_ofChars cs).trans h)
  have hcovered := hpiece.covered_iff
  obtain ⟨hmem, rest, hfits⟩ := hpiece.exists_fits
  rw [hpiece.inComment_iff, hpiece.stray_iff]
  cases piece with
  | spacing text =>
    have hspacing := hfits.2.1 c hmem
    simpa [hspacing] using hcovered
  | comment text => simpa using hcovered
  | lexeme kind text =>
    have hspacing := (hfits.1.classes hmem).1
    simpa [hspacing] using hcovered
  | stray d =>
    obtain rfl : c = d := List.mem_singleton.mp hmem
    simpa using hcovered

/-- The spans of tokens follow one another and do not overlap. -/
private theorem pairwise_spans (cs : List Char) :
    (ofChars cs).tokens.Pairwise fun a b => a.span.stop ≤ b.span.start := by
  refine (Placed.pairwise_offsets .start (Piece.ofChars cs)).filterMap Placed.token?
    fun a b hab s hs t ht => ?_
  obtain ⟨piece, position⟩ := a
  obtain ⟨piece', position'⟩ := b
  cases piece <;> cases hs
  cases piece' <;> cases ht
  exact hab

/-- Each token ends before the next one begins, and the last one before the text ends. -/
theorem pairwise_tokens_endToken (cs : List Char) :
    ((ofChars cs).tokens ++ [(ofChars cs).endToken]).Pairwise fun a b =>
      a.span.start < b.span.start ∧ a.span.stop ≤ b.span.start := by
  refine List.pairwise_append.mpr ⟨?_, List.pairwise_singleton _ _, ?_⟩
  · refine (pairwise_spans cs).imp_of_mem fun {a b} ha _ hab => ⟨?_, hab⟩
    obtain ⟨_, _, _, -, -, -, hpos, -⟩ := exists_lexeme ha
    exact Nat.lt_of_lt_of_le hpos hab
  · intro token htoken last hlast
    obtain ⟨before, text, behind, rfl, -, hstop, hpos, -⟩ := exists_lexeme htoken
    have hle : token.span.stop ≤ width (before ++ text ++ behind) := by
      rw [hstop, width_append (before ++ text)]
      exact Nat.le_add_right _ _
    rw [List.mem_singleton.mp hlast, (span_endToken _).1]
    exact ⟨Nat.lt_of_lt_of_le hpos hle, hle⟩

/-- The strays stand one behind the other. -/
theorem pairwise_strays (cs : List Char) : (ofChars cs).strays.Pairwise fun a b =>
    a.line < b.line ∨ a.line = b.line ∧ a.column < b.column := by
  have hne : ∀ piece ∈ Piece.ofChars cs, piece.text ≠ [] :=
    fun _ => Piece.text_ne_nil_of_mem_ofChars
  refine (Placed.pairwise_place (p := .start) hne).filterMap Placed.stray?
    fun a b hab s hs t ht => ?_
  obtain ⟨piece, position⟩ := a
  obtain ⟨piece', position'⟩ := b
  cases piece <;> cases hs
  cases piece' <;> cases ht
  exact hab

end Scan

namespace Lexer

open TokenKind (SpelledBy Longest)

/-- Some tokens and some stray characters take a source text apart: each of its characters is
covered by a token, blank, part of a comment or stray, and nothing is told of it twice. -/
structure Partition (source : String) (tokens : List Token) (strays : List Stray) : Prop where
  /-- The last token and no other stands for the end of the text, and covers nothing there. -/
  ends : ∃ front last, tokens = front ++ [last] ∧ (∀ token ∈ front, token.kind ≠ .endOfInput) ∧
    last.kind = .endOfInput ∧ last.span.start = source.utf8ByteSize ∧
    last.span.stop = source.utf8ByteSize
  /-- Every other token covers the longest stretch of characters from its start on that spells a
  kind of token, and is of that kind. -/
  lexemes : ∀ token ∈ tokens, token.kind ≠ .endOfInput → ∃ before text behind,
    source.toList = before ++ text ++ behind ∧ token.span.start = width before ∧
    token.span.stop = width (before ++ text) ∧ token.span.start < token.span.stop ∧
    token.kind.SpelledBy text ∧ Longest text behind ∧
    ∀ d ∈ behind.head?, token.kind.goesOn d = false
  /-- The tokens stand one behind the other. -/
  inOrder : tokens.Pairwise fun a b => a.span.start < b.span.start ∧ a.span.stop ≤ b.span.start
  /-- The characters that no token covers are the blanks, those of comments and the strays. -/
  outside : ∀ before c behind, source.toList = before ++ c :: behind →
    ((∀ token ∈ tokens, ¬ (token.span.start ≤ width before ∧ width before < token.span.stop)) ↔
      isSpacing c = true ∨ InComment before c behind ∨ .behind before c ∈ strays)
  /-- The strays are neither blank nor part of comments, and no token begins with one. -/
  passed : ∀ stray ∈ strays, ∃ before c behind, source.toList = before ++ c :: behind ∧
    stray = .behind before c ∧ isSpacing c = false ∧ ¬ InComment before c behind ∧
    ∀ (text : List Char) (kind : TokenKind), text <+: c :: behind → ¬ kind.SpelledBy text
  /-- The strays stand one behind the other. -/
  passedInOrder : strays.Pairwise fun a b =>
    a.line < b.line ∨ a.line = b.line ∧ a.column < b.column

/-- The tokens and the strays that the lexer hands out take the source text apart, and behind the
last token there is nothing to take. -/
theorem tokens_partition (source : String) :
    Partition source (tokens source) (ofSource source).takeRest.2.strays ∧
      (ofSource source).takeRest.2.takeNext?.1 = none := by
  refine ⟨?_, takeNext?_takeRest source⟩
  rw [tokens_eq, strays_takeRest]
  have hsize : width source.toList = source.utf8ByteSize := by
    rw [width, String.ofList_toList]
  obtain ⟨hstart, hstop⟩ := Scan.span_endToken source.toList
  refine ⟨⟨_, _, rfl, fun token => Scan.kind_ne_endOfInput, rfl, hstart.trans hsize,
    hstop.trans hsize⟩, ?_, Scan.pairwise_tokens_endToken _, ?_, fun stray => Scan.exists_stray,
    Scan.pairwise_strays _⟩
  · intro token htoken hkind
    have hmem : token ∈ (Scan.ofSource source).tokens := by
      refine (List.mem_append.mp htoken).resolve_right fun hlast => hkind ?_
      rw [List.mem_singleton.mp hlast]
      rfl
    obtain ⟨before, text, behind, hsource, hfrom, hto, hpos, hspelled, hlongest⟩ :=
      Scan.exists_lexeme hmem
    exact ⟨before, text, behind, hsource, hfrom, hto, hpos, hspelled, hlongest,
      (TokenKind.longest_iff hspelled).mp hlongest⟩
  · intro before c behind hsource
    refine Iff.trans ?_ (Scan.not_covered_iff hsource)
    rw [List.forall_mem_append, List.forall_mem_singleton]
    -- the token that ends the text covers nothing
    refine and_iff_left fun hlast => absurd (Nat.lt_of_le_of_lt hlast.1 hlast.2) ?_
    exact Nat.not_lt.mpr (hstop.trans hstart.symm).le

end Lexer

end Lucha
