import Lucha.Proofs.Token.Spelling
import Lucha.Token.Lexer

/-!
# The tokens that the lexer hands out

Taken one by one, the tokens of a source text are those of its scan and then the one that ends the
text (`Lexer.tokens_eq`).
-/

namespace Lucha

/-- No token of a scan stands for the end of the text. -/
theorem Placed.kind_ne_endOfInput {placed : Placed} {token : Token} (h : placed.piece.Legible)
    (htoken : placed.token? = some token) : token.kind ≠ .endOfInput := by
  obtain ⟨piece, position⟩ := placed
  cases piece with
  | lexeme kind text =>
    cases htoken
    rintro rfl
    exact h
  | _ => cases htoken

namespace Lexer

/-- Seeking stops behind the first piece that is a token, and tells the strays before it. -/
theorem exists_of_seek_eq_some {pieces : List Placed} {token : Token}
    (h : (seek pieces).1 = some token) :
    ∃ before placed, pieces = before ++ placed :: (seek pieces).2.2 ∧
      before.filterMap Placed.token? = [] ∧ placed.token? = some token ∧
        (seek pieces).2.1 = before.filterMap Placed.stray? := by
  induction pieces with
  | nil => cases h
  | cons first rest ih =>
    rw [seek] at h ⊢
    cases htoken : first.token? with
    | some found =>
      rw [htoken] at h
      exact ⟨[], first, rfl, rfl, htoken.trans h, rfl⟩
    | none =>
      rw [htoken] at h
      obtain ⟨before, placed, heq, hbefore, hplaced, hstrays⟩ := ih h
      refine ⟨first :: before, placed, congrArg (first :: ·) heq, ?_, hplaced, ?_⟩
      · rw [List.filterMap_cons_none htoken, hbefore]
      · rw [← List.singleton_append, List.filterMap_append, ← hstrays]
        cases hstray : first.stray? <;> simp [hstray]

/-- Where the search finds no lexeme, no token is ahead. -/
theorem filterMap_of_seek_eq_none {pieces : List Placed} (h : (seek pieces).1 = none) :
    pieces.filterMap Placed.token? = [] := by
  induction pieces with
  | nil => rfl
  | cons first rest ih =>
    rw [seek] at h
    cases htoken : first.token? with
    | some found =>
      rw [htoken] at h
      cases h
    | none =>
      rw [htoken] at h
      rw [List.filterMap_cons_none htoken, ih h]

/-- Where no token is found, seeking stops at the end. -/
theorem behind_of_seek_eq_none {pieces : List Placed} (h : (seek pieces).1 = none) :
    (seek pieces).2.2 = [] := by
  induction pieces with
  | nil => rfl
  | cons first rest ih =>
    rw [seek] at h ⊢
    cases htoken : first.token? with
    | some found =>
      rw [htoken] at h
      cases h
    | none =>
      rw [htoken] at h
      exact ih h

/-- Seeking passes the stray characters one by one. -/
theorem strays_seek (pieces : List Placed) :
    (seek pieces).2.1 ++ (seek pieces).2.2.filterMap Placed.stray?
      = pieces.filterMap Placed.stray? := by
  induction pieces with
  | nil => rfl
  | cons first rest ih =>
    rw [seek]
    cases htoken : first.token? with
    | some found =>
      obtain ⟨piece, position⟩ := first
      cases piece <;> cases htoken
      rfl
    | none =>
      rw [List.filterMap_cons]
      cases hstray : first.stray? <;> simp [ih]

/-- The strays that are kept and those ahead are always the same. -/
theorem strays_take (l : Lexer) :
    l.take.2.strays ++ l.take.2.ahead.filterMap Placed.stray?
      = l.strays ++ l.ahead.filterMap Placed.stray? := by
  simp only [take, List.append_assoc, strays_seek]

private theorem takeRest_go_of_finished {l : Lexer} (h : l.finished = true) (bound : Nat) :
    takeRest.go l bound = ([], l) := by
  cases bound with
  | zero => rfl
  | succ bound => simp [takeRest.go, takeNext?, h]

/-- With a bound beyond the number of pieces ahead, all tokens are taken up to the end and all stray
characters are passed. -/
private theorem takeRest_go {l : Lexer} (hopen : l.finished = false)
    (hlegible : ∀ placed ∈ l.ahead, placed.piece.Legible) {bound : Nat}
    (hbound : l.ahead.length < bound) :
    (takeRest.go l bound).1
        = l.ahead.filterMap Placed.token? ++ [⟨.endOfInput, .covering l.stop []⟩] ∧
      (takeRest.go l bound).2.strays = l.strays ++ l.ahead.filterMap Placed.stray? ∧
      (takeRest.go l bound).2.finished = true := by
  induction bound generalizing l with
  | zero => omega
  | succ bound ih =>
    have hkept := strays_take l
    cases hseek : (seek l.ahead).1 with
    | none =>
      simp only [take, behind_of_seek_eq_none hseek, List.filterMap_nil, List.append_nil] at hkept
      simp [takeRest.go, takeNext?, hopen, take, hseek, filterMap_of_seek_eq_none hseek,
        takeRest_go_of_finished, hkept]
    | some token =>
      obtain ⟨before, placed, heq, hbefore, hplaced, -⟩ := exists_of_seek_eq_some hseek
      have hkind : token.kind ≠ .endOfInput :=
        Placed.kind_ne_endOfInput (hlegible placed (by rw [heq]; simp)) hplaced
      have hahead : l.ahead.filterMap Placed.token?
          = token :: (seek l.ahead).2.2.filterMap Placed.token? := by
        rw [heq, List.filterMap_append, hbefore, List.filterMap_cons_some hplaced, ← heq]
        rfl
      -- what is behind the token is shorter and as legible, so the rest goes on from there
      have hbehind : (seek l.ahead).2.2.length < bound := by
        have hlength := congrArg List.length heq
        rw [List.length_append, List.length_cons] at hlength
        omega
      have hsub (piece : Placed) (hmem : piece ∈ (seek l.ahead).2.2) : piece ∈ l.ahead := by
        rw [heq]
        exact List.mem_append_right _ (List.mem_cons_of_mem _ hmem)
      obtain ⟨htokens, hstrays, hfinished⟩ := ih (l := l.take.2) hopen
        (fun piece hmem => hlegible piece (hsub piece hmem)) hbehind
      have htoken : l.take.1 = token := by simp only [take, hseek, Option.getD_some]
      have hnext : l.takeNext? = (some token, l.take.2) := by
        simp only [takeNext?, hopen, Bool.false_eq_true, if_false, htoken, decide_eq_false hkind]
        rw [← hopen]
        rfl
      simp only [takeRest.go, hnext]
      exact ⟨by rw [htokens, hahead]; rfl, hstrays.trans hkept, hfinished⟩

/-- A lexer at the start of a source text takes the tokens that the scan finds and passes the stray
characters. -/
private theorem takeRest_ofSource (source : String) :
    (ofSource source).takeRest.1
        = (Scan.ofSource source).tokens ++ [(Scan.ofSource source).endToken] ∧
      (ofSource source).takeRest.2.strays = (Scan.ofSource source).strays ∧
      (ofSource source).takeRest.2.finished = true :=
  takeRest_go rfl (fun _ hmem => Piece.legible_of_mem_ofChars (Placed.mem_of_mem_place hmem))
    (Nat.lt_succ_self _)

/-- The tokens of a source text are those of its scan and then the one that ends the text. -/
theorem tokens_eq (source : String) :
    tokens source = (Scan.ofSource source).tokens ++ [(Scan.ofSource source).endToken] :=
  (takeRest_ofSource source).1

/-- The stray characters that are passed up to the end of a source text are those of its scan. -/
theorem strays_takeRest (source : String) :
    (ofSource source).takeRest.2.strays = (Scan.ofSource source).strays :=
  (takeRest_ofSource source).2.1

/-- Behind the token that ends a source text there is nothing to take. -/
theorem takeNext?_takeRest (source : String) :
    ((ofSource source).takeRest.2.takeNext?).1 = none := by
  rw [takeNext?, if_pos (takeRest_ofSource source).2.2]

end Lexer

end Lucha
