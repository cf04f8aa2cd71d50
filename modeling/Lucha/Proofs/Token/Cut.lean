import Lucha.Proofs.Token.Fit
import Lucha.Proofs.Token.Lexer

/-!
# Where tokens stand

Every piece of a source text starts behind the one before it, so no two tokens start at one place
(`Scan.pairwise_tokens`). A source text that is cut behind a piece falls into the pieces up to there
(`Piece.ofChars_of_append`), and cut behind a token it has the tokens up to there
(`Scan.exists_front`).
-/

namespace Lucha

/-! ### Places in order -/

namespace Position

/-- One place stands before another, on an earlier line or further left. -/
def Before (p q : Position) : Prop :=
  p.line < q.line ∨ p.line = q.line ∧ p.column < q.column

theorem Before.trans {p q r : Position} (h : p.Before q) (h' : q.Before r) : p.Before r := by
  unfold Before at *
  omega

theorem before_next (p : Position) (c : Char) : p.Before (p.next c) := by
  rw [next]
  split
  · exact .inl (Nat.lt_succ_self _)
  · exact .inr ⟨rfl, Nat.lt_succ_self _⟩

theorem before_after {p q : Position} (h : p.Before q) (cs : List Char) :
    p.Before (q.after cs) := by
  induction cs generalizing q with
  | nil => exact h
  | cons c cs ih => exact ih (h.trans (before_next q c))

theorem before_after_of_ne_nil (p : Position) {cs : List Char} (h : cs ≠ []) :
    p.Before (p.after cs) := by
  cases cs with
  | nil => exact absurd rfl h
  | cons c cs => exact before_after (before_next p c) cs

/-- The bytes before a place grow by those of the characters between. -/
theorem offset_after (p : Position) (cs : List Char) :
    (p.after cs).offset = p.offset + (String.ofList cs).utf8ByteSize := by
  induction cs generalizing p with
  | nil => rfl
  | cons c cs ih =>
    have hnext : (p.next c).offset = p.offset + c.utf8Size := by
      rw [next]
      split <;> rfl
    have hcons : String.ofList (c :: cs) = String.singleton c ++ String.ofList cs := by
      rw [← List.singleton_append, String.ofList_append]
      rfl
    rw [after_cons, ih, hnext, hcons, String.utf8ByteSize_append, String.utf8ByteSize_singleton]
    omega

end Position

namespace Placed

/-- Pieces are placed behind what is before the first of them. -/
theorem before_of_mem_place {p q : Position} (h : p.Before q) {pieces : List Piece}
    {placed : Placed} (hplaced : placed ∈ place q pieces) : p.Before placed.position := by
  induction pieces generalizing q with
  | nil => cases hplaced
  | cons piece rest ih =>
    rcases List.mem_cons.mp hplaced with rfl | hplaced
    · exact h
    · exact ih (Position.before_after h _) hplaced

/-- Pieces that are not empty stand one behind the other. -/
theorem pairwise_place {p : Position} {pieces : List Piece}
    (hne : ∀ piece ∈ pieces, piece.text ≠ []) :
    (place p pieces).Pairwise fun a b => a.position.Before b.position := by
  induction pieces generalizing p with
  | nil => exact .nil
  | cons piece rest ih =>
    obtain ⟨hfirst, hrest⟩ := List.forall_mem_cons.mp hne
    exact .cons (fun _ hplaced => before_of_mem_place (p.before_after_of_ne_nil hfirst) hplaced)
      (ih hrest)

end Placed

/-! ### Pieces of a text that is cut -/

namespace Piece

/-- A text that is cut behind a piece falls into the pieces up to there. -/
theorem ofChars_of_append {xs ys : List Piece}
    (h : ofChars (xs.flatMap text ++ ys.flatMap text) = xs ++ ys) :
    ofChars (xs.flatMap text) = xs :=
  ofChars_of_fitTogether (.of_append (h ▸ fitTogether_ofChars _))

end Piece

/-! ### Tokens of a text that is cut -/

namespace Scan

/-- Tokens stand one behind the other. -/
theorem pairwise_tokens (cs : List Char) : (ofChars cs).tokens.Pairwise fun a b =>
    a.span.line < b.span.line ∨ a.span.line = b.span.line ∧ a.span.column < b.span.column := by
  have hne : ∀ piece ∈ Piece.ofChars cs, piece.text ≠ [] :=
    fun _ => Piece.text_ne_nil_of_mem_ofChars
  have hplaces := Placed.pairwise_place (p := .start) hne
  refine hplaces.filterMap Placed.token? fun a b hab s hs t ht => ?_
  obtain ⟨piece, position⟩ := a
  obtain ⟨piece', position'⟩ := b
  cases piece <;> cases hs
  cases piece' <;> cases ht
  exact hab

theorem filterMap_place_cons (p : Position) (piece : Piece) (rest : List Piece) :
    (Placed.place p (piece :: rest)).filterMap Placed.token?
      = (Placed.token? ⟨piece, p⟩).toList
        ++ (Placed.place (p.after piece.text) rest).filterMap Placed.token? := by
  rw [Placed.place]
  cases htoken : Placed.token? ⟨piece, p⟩ <;> simp [htoken]

/-- Behind each token the placed pieces can be cut. -/
theorem exists_cut {p : Position} {pieces : List Piece} {before after : List Token} {token : Token}
    (h : (Placed.place p pieces).filterMap Placed.token? = before ++ token :: after) :
    ∃ xs ys, pieces = xs ++ ys ∧
      (Placed.place p xs).filterMap Placed.token? = before ++ [token] ∧
        token.span.stop = (p.after (xs.flatMap Piece.text)).offset := by
  induction pieces generalizing p before with
  | nil => exact absurd h.symm (by simp [Placed.place])
  | cons piece rest ih =>
    have hbehind (before' : List Token)
        (hfirst : (Placed.token? ⟨piece, p⟩).toList ++ before' = before)
        (h : (Placed.place (p.after piece.text) rest).filterMap Placed.token?
          = before' ++ token :: after) :
        ∃ xs ys, piece :: rest = xs ++ ys ∧
          (Placed.place p xs).filterMap Placed.token? = before ++ [token] ∧
            token.span.stop = (p.after (xs.flatMap Piece.text)).offset := by
      obtain ⟨xs, ys, rfl, htokens, hstop⟩ := ih h
      refine ⟨piece :: xs, ys, rfl, ?_, ?_⟩
      · rw [filterMap_place_cons, htokens, ← List.append_assoc, hfirst]
      · rw [hstop, List.flatMap_cons, Position.after_append]
    rw [filterMap_place_cons] at h
    cases htoken : Placed.token? ⟨piece, p⟩ with
    | none =>
      rw [htoken] at h
      exact hbehind before (by rw [htoken]; rfl) h
    | some first =>
      rw [htoken, Option.toList_some, List.singleton_append] at h
      cases before with
      | nil =>
        -- the token is that of the first piece
        obtain ⟨rfl, -⟩ := List.cons.inj h
        refine ⟨[piece], rest, rfl, ?_, ?_⟩
        · rw [filterMap_place_cons, htoken]
          rfl
        · rw [List.flatMap_singleton]
          cases piece <;> cases htoken
          rfl
      | cons _ before =>
        rw [List.cons_append] at h
        obtain ⟨rfl, hmore⟩ := List.cons.inj h
        exact hbehind before (by rw [htoken]; rfl) hmore

/-- Behind each token a source text can be cut, and has the tokens up to there. -/
theorem exists_front {cs : List Char} {before after : List Token} {token : Token}
    (h : (ofChars cs).tokens = before ++ token :: after) :
    ∃ front back, cs = front ++ back ∧ (String.ofList front).utf8ByteSize = token.span.stop ∧
      (ofChars front).tokens = before ++ [token] := by
  obtain ⟨xs, ys, hpieces, htokens, hstop⟩ := exists_cut h
  have htext : cs = xs.flatMap Piece.text ++ ys.flatMap Piece.text := by
    rw [← List.flatMap_append, ← hpieces, Piece.flatMap_text_ofChars]
  refine ⟨xs.flatMap Piece.text, ys.flatMap Piece.text, htext, ?_, ?_⟩
  · rw [hstop, Position.offset_after]
    exact (Nat.zero_add _).symm
  · rw [htext] at hpieces
    rw [tokens, ofChars, Piece.ofChars_of_append hpieces]
    exact htokens

end Scan

end Lucha
