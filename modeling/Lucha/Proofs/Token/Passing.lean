import Lucha.Proofs.Token.Partition

/-!
# The strays that the lexer passes

A lexer that has taken some tokens of a source text has passed the strays before the last of them
and no others (`Lexer.strays_afterTaking`), and behind the token that ends the text it has passed
them all (`Lexer.strays_afterTaking_all`). The strays before a token can be told by their places as
well as by the offsets of the pieces (`Scan.filter_strays`, `Scan.straysBefore_start`).
-/

namespace Lucha

/-- The stray stands before a token. -/
def Stray.IsBefore (s : Stray) (token : Token) : Prop :=
  s.line < token.span.line ∨ s.line = token.span.line ∧ s.column < token.span.column

instance (s : Stray) (token : Token) : Decidable (s.IsBefore token) :=
  inferInstanceAs (Decidable (_ ∨ _))

namespace Placed

/-- A token is no stray. -/
theorem stray?_of_token? {placed : Placed} {token : Token} (h : placed.token? = some token) :
    placed.stray? = none := by
  obtain ⟨piece, position⟩ := placed
  cases piece <;> cases h
  rfl

end Placed

/-! ### Strays before a token -/

namespace Scan

variable {cs : List Char} {before behind : List Placed} {placed : Placed} {token : Token}

/-- The strays before a token are those among the pieces before it. -/
theorem filter_strays (h : (ofChars cs).pieces = before ++ placed :: behind)
    (hplaced : placed.token? = some token) :
    (ofChars cs).strays.filter (·.IsBefore token) = before.filterMap Placed.stray? := by
  have hpairs : (ofChars cs).pieces.Pairwise fun a b => a.position.Before b.position :=
    Placed.pairwise_place fun _ => Piece.text_ne_nil_of_mem_ofChars
  rw [h, List.pairwise_append, List.pairwise_cons] at hpairs
  obtain ⟨-, ⟨hbehind, -⟩, hbefore⟩ := hpairs
  have hplace {other : Placed} {s : Stray} (hs : other.stray? = some s) :
      s.IsBefore token ↔ other.position.Before placed.position := by
    obtain ⟨piece, position⟩ := placed
    obtain ⟨piece', position'⟩ := other
    cases piece <;> cases hplaced
    cases piece' <;> cases hs
    rfl
  have hkept : ∀ s ∈ before.filterMap Placed.stray?, s.IsBefore token := by
    intro s hs
    obtain ⟨other, hother, hs⟩ := List.mem_filterMap.mp hs
    exact (hplace hs).mpr (hbefore other hother placed List.mem_cons_self)
  have hdropped : ∀ s ∈ behind.filterMap Placed.stray?, ¬ s.IsBefore token := by
    intro s hs
    obtain ⟨other, hother, hs⟩ := List.mem_filterMap.mp hs
    have hlater := hbehind other hother
    rw [hplace hs]
    unfold Position.Before at *
    omega
  rw [strays, h, List.filterMap_append,
    List.filterMap_cons_none (Placed.stray?_of_token? hplaced), List.filter_append,
    List.filter_eq_self.mpr (by simpa using hkept),
    List.filter_eq_nil_iff.mpr (by simpa using hdropped), List.append_nil]

/-- The pieces before a token are those that start at a lesser offset. -/
theorem straysBefore_start (h : (ofChars cs).pieces = before ++ placed :: behind)
    (hplaced : placed.token? = some token) :
    (ofChars cs).straysBefore token.span.start = before.filterMap Placed.stray? := by
  have hwide : ∀ other ∈ (ofChars cs).pieces,
      other.position.offset < (other.position.after other.piece.text).offset := by
    intro other hother
    have hne := Piece.text_ne_nil_of_mem_ofChars (Placed.mem_of_mem_place hother)
    rw [Position.offset_after]
    exact Nat.lt_add_of_pos_right (width_pos hne)
  have hpairs : (ofChars cs).pieces.Pairwise fun a b => a.position.offset < b.position.offset :=
    (Placed.pairwise_offsets .start _).imp_of_mem fun hother _ hle =>
      Nat.lt_of_lt_of_le (hwide _ hother) hle
  rw [h, List.pairwise_append, List.pairwise_cons] at hpairs
  obtain ⟨-, ⟨hbehind, -⟩, hbefore⟩ := hpairs
  have hstart : token.span.start = placed.position.offset := by
    obtain ⟨piece, position⟩ := placed
    cases piece <;> cases hplaced
    rfl
  have hkept : ∀ other ∈ before, other.position.offset < token.span.start := fun other hother =>
    hstart ▸ hbefore other hother placed List.mem_cons_self
  have hdropped : ∀ other ∈ behind, ¬ other.position.offset < token.span.start :=
    fun other hother => hstart ▸ Nat.not_lt.mpr (hbehind other hother).le
  rw [straysBefore, h, List.filter_append, List.filter_cons_of_neg (by simp [hstart]),
    List.filter_eq_self.mpr (by simpa using hkept),
    List.filter_eq_nil_iff.mpr (by simpa using hdropped), List.append_nil]

/-- All strays stand before the token that ends the text. -/
theorem isBefore_endToken {s : Stray} (h : s ∈ (ofChars cs).strays) :
    s.IsBefore (ofChars cs).endToken := by
  obtain ⟨xs, c, ys, hpieces, rfl⟩ := mem_strays_iff.mp h
  have htext : cs = xs.flatMap Piece.text ++ c :: ys.flatMap Piece.text := by
    rw [← Piece.flatMap_text_ofChars cs, hpieces, List.flatMap_append, List.flatMap_cons]
    rfl
  have hbefore := (Position.start.after (xs.flatMap Piece.text)).before_after_of_ne_nil
    (List.cons_ne_nil c (ys.flatMap Piece.text))
  rw [← Position.after_append, ← htext] at hbefore
  exact hbefore

/-- Where the tokens can be split, the pieces can. -/
theorem exists_pieces_of_tokens {taken later : List Token}
    (h : (ofChars cs).tokens = taken ++ token :: later) :
    ∃ before placed behind, (ofChars cs).pieces = before ++ placed :: behind ∧
      before.filterMap Placed.token? = taken ∧ placed.token? = some token := by
  obtain ⟨before, rest, hpieces, htaken, hrest⟩ := List.filterMap_eq_append_iff.mp h
  obtain ⟨between, placed, behind, rfl, hbetween, hplaced, -⟩ :=
    List.filterMap_eq_cons_iff.mp hrest
  refine ⟨before ++ between, placed, behind, ?_, ?_, hplaced⟩
  · rw [hpieces, List.append_assoc]
  · rw [List.filterMap_append, htaken, List.filterMap_eq_nil_iff.mpr hbetween, List.append_nil]

end Scan

/-! ### Taking tokens -/

namespace Lexer

/-- The lexer after some more tokens are taken. -/
def afterTaking (l : Lexer) : Nat → Lexer
  | 0 => l
  | n + 1 => l.take.2.afterTaking n

variable {l : Lexer} {token : Token} {taken later : List Token}

/-- Taking a token passes the strays before it. -/
theorem exists_take (h : l.ahead.filterMap Placed.token? = token :: later) :
    ∃ before placed, l.ahead = before ++ placed :: l.take.2.ahead ∧
      before.filterMap Placed.token? = [] ∧ placed.token? = some token ∧
        l.take.2.strays = l.strays ++ before.filterMap Placed.stray? := by
  cases hseek : (seek l.ahead).1 with
  | none => cases h.symm.trans (filterMap_of_seek_eq_none hseek)
  | some found =>
    obtain ⟨before, placed, heq, hbefore, hplaced, hstrays⟩ := exists_of_seek_eq_some hseek
    rw [heq, List.filterMap_append, hbefore, List.filterMap_cons_some hplaced] at h
    obtain ⟨rfl, -⟩ := List.cons.inj h
    exact ⟨before, placed, heq, hbefore, hplaced, congrArg (l.strays ++ ·) hstrays⟩

/-- Taking some tokens passes the strays before the last of them. -/
theorem exists_afterTaking (h : l.ahead.filterMap Placed.token? = taken ++ token :: later) :
    ∃ before placed, l.ahead = before ++ placed :: (l.afterTaking (taken.length + 1)).ahead ∧
      before.filterMap Placed.token? = taken ∧ placed.token? = some token ∧
        (l.afterTaking (taken.length + 1)).strays
          = l.strays ++ before.filterMap Placed.stray? := by
  induction taken generalizing l with
  | nil => exact exists_take h
  | cons first taken ih =>
    obtain ⟨passed, placed, heq, hpassed, hplaced, hstrays⟩ := exists_take h
    rw [heq, List.filterMap_append, hpassed, List.filterMap_cons_some hplaced] at h
    obtain ⟨before, last, hahead, htaken, hlast, hkept⟩ := ih (List.cons.inj h).2
    refine ⟨passed ++ placed :: before, last, ?_, ?_, hlast, ?_⟩
    · rw [heq, hahead, List.append_assoc]
      rfl
    · rw [List.filterMap_append, hpassed, List.filterMap_cons_some hplaced, htaken]
      rfl
    · refine hkept.trans ?_
      rw [hstrays, List.filterMap_append,
        List.filterMap_cons_none (Placed.stray?_of_token? hplaced), List.append_assoc]

/-- The strays that are kept and those ahead are the same after some more tokens. -/
theorem strays_afterTaking_append (l : Lexer) (n : Nat) :
    (l.afterTaking n).strays ++ (l.afterTaking n).ahead.filterMap Placed.stray?
      = l.strays ++ l.ahead.filterMap Placed.stray? := by
  induction n generalizing l with
  | zero => rfl
  | succ n ih => exact (ih l.take.2).trans (strays_take l)

/-- Behind the token that ends the text nothing is ahead. -/
theorem ahead_afterTaking_of_all (h : l.ahead.filterMap Placed.token? = taken) :
    (l.afterTaking (taken.length + 1)).ahead = [] := by
  induction taken generalizing l with
  | nil =>
    refine behind_of_seek_eq_none (Option.eq_none_iff_forall_ne_some.mpr fun found hseek => ?_)
    obtain ⟨before, placed, heq, -, hplaced, -⟩ := exists_of_seek_eq_some hseek
    rw [heq, List.filterMap_append, List.filterMap_cons_some hplaced] at h
    exact List.append_ne_nil_of_right_ne_nil _ (List.cons_ne_nil _ _) h
  | cons first taken ih =>
    obtain ⟨passed, placed, heq, hpassed, hplaced, -⟩ := exists_take h
    rw [heq, List.filterMap_append, hpassed, List.filterMap_cons_some hplaced] at h
    exact ih (List.cons.inj h).2

theorem strays_afterTaking_of_all (h : l.ahead.filterMap Placed.token? = taken) :
    (l.afterTaking (taken.length + 1)).strays = l.strays ++ l.ahead.filterMap Placed.stray? := by
  rw [← strays_afterTaking_append l (taken.length + 1), ahead_afterTaking_of_all h,
    List.filterMap_nil, List.append_nil]

/-- A lexer that has taken some tokens of a source text has passed the strays before the last. -/
theorem strays_afterTaking {source : String}
    (h : (Scan.ofSource source).tokens = taken ++ token :: later) :
    ((ofSource source).afterTaking (taken.length + 1)).strays
      = (Scan.ofSource source).strays.filter (·.IsBefore token) := by
  obtain ⟨before, placed, hahead, -, hplaced, hstrays⟩ :=
    exists_afterTaking (l := ofSource source) h
  exact hstrays.trans (Scan.filter_strays hahead hplaced).symm

/-- Behind the token that ends a source text all its strays are passed. -/
theorem strays_afterTaking_all {source : String} (h : (Scan.ofSource source).tokens = taken) :
    ((ofSource source).afterTaking (taken.length + 1)).strays = (Scan.ofSource source).strays :=
  strays_afterTaking_of_all h

end Lexer

end Lucha
