import Lucha.Parser.Program
import Lucha.Proofs.Parser.Lookahead
import Lucha.Proofs.Text.OneLine

/-!
# What is said about a token that is refused

A reader that refuses a token says what it expects, and names the token that it found. What it
expects stands on one line, and so does what is said on the whole if the token is shown on one
(`Brief`). There is one rule for each way to put readers together and one line for each production
of the grammar, up to the whole program (`Parser.brief_program`).
-/

namespace Lucha

open Text (OneLine)

/-- What is said about a token that is refused is on one line if the token is shown on one. -/
def Fault.Brief : Fault → Prop
  | .at fault token => OneLine token.kind.display → OneLine fault.message
  | .atEnd _ => True
  | .inconsistent _ => True

/-- What is expected and what is found are named on one line. -/
theorem SyntaxFault.oneLine_mismatch {expected : String} {found : TokenKind}
    (hexpected : OneLine expected) (hfound : OneLine found.display) :
    OneLine (mismatch expected found).message := by
  unfold message
  simp only [Text.oneLine_append]
  exact ⟨⟨⟨by decide, hexpected⟩, by decide⟩, hfound⟩

theorem SyntaxFault.oneLine_outOfRange {what : String} (h : OneLine what) :
    OneLine (outOfRange what).message := by
  unfold message
  simp only [Text.oneLine_append]
  exact ⟨⟨by decide, h⟩, by decide⟩

theorem SyntaxFault.oneLine_tooDeep (limit : Nat) : OneLine (tooDeep limit).message := by
  unfold message
  simp only [Text.oneLine_append]
  exact ⟨⟨by decide, Text.oneLine_repr limit⟩, by decide⟩

namespace Parser

variable {α β : Type} {p q item : Parser α} {f : α → Parser β}

/-- What the reader says about a token that it refuses is on one line if the token is shown on
one. -/
def Brief (p : Parser α) : Prop :=
  ∀ ⦃ts fault rest⦄, p ts = .error fault rest → fault.Brief

/-! ### Readers that are put together -/

theorem brief_pure (a : α) : Brief (pure a : Parser α) :=
  fun _ _ _ => nofun

theorem brief_get : Brief (get : Parser (List Token)) :=
  fun _ _ _ => nofun

/-- Readers one after the other say nothing but what one of them says. -/
theorem Brief.bind (hp : Brief p) (hf : ∀ a, Brief (f a)) : Brief (p >>= f) := by
  intro ts fault rest h
  cases hrun : p ts with
  | ok a mid => exact hf a ((bind_of_ok hrun).symm.trans h)
  | error fault' rest' =>
    cases (bind_of_error hrun).symm.trans h
    exact hp hrun

theorem Brief.map {g : α → β} (hp : Brief p) : Brief (g <$> p) := by
  rw [map_eq_pure_bind]
  exact hp.bind fun _ => brief_pure _

theorem brief_ite {found : Bool} (hp : Brief p) (hq : Brief q) :
    Brief (if found = true then p else q) := by
  split
  · exact hp
  · exact hq

theorem brief_consistent (e : Except Inconsistency α) : Brief (consistent e) := by
  intro ts fault rest h
  cases e <;> cases h
  trivial

/-! ### Tokens -/

/-- A refused token is named with what was expected instead. -/
theorem brief_refuse {expected : String} (h : OneLine expected) :
    Brief (refuse expected : Parser α) := by
  rintro (_ | ⟨token, ts⟩) fault rest ⟨⟩
  · trivial
  · exact SyntaxFault.oneLine_mismatch h

/-- A token is refused with a message of the reader's own. -/
theorem brief_refuseFor {fault : SyntaxFault} (h : OneLine fault.message) :
    Brief (refuseFor fault : Parser α) := by
  rintro (_ | ⟨token, ts⟩) fault rest ⟨⟩
  · trivial
  · exact fun _ => h

/-- A token that is not picked is refused with what was expected. -/
theorem brief_accept {expected : String} (h : OneLine expected) (pick : TokenKind → Option α) :
    Brief (accept expected pick) := by
  rintro (_ | ⟨token, ts⟩) fault rest hrun
  · cases hrun
    trivial
  · rw [accept] at hrun
    cases hpick : pick token.kind with
    | some value =>
      rw [hpick] at hrun
      cases hrun
    | none =>
      rw [hpick] at hrun
      exact brief_refuse h hrun

theorem brief_expect (kind : TokenKind) : Brief (expect kind) :=
  (brief_accept kind.oneLine_name _).map

theorem brief_word (keyword : Keyword) : Brief (word keyword) :=
  brief_expect _

theorem brief_mark (symbol : Symbol) : Brief (mark symbol) :=
  brief_expect _

theorem brief_choice {expected : String} (h : OneLine expected) (pick : Keyword → Option α) :
    Brief (choice expected pick) :=
  (brief_accept h _).map

theorem brief_ident {what : String} (h : OneLine what) : Brief (ident what) :=
  brief_accept h _

theorem brief_number {what : String} (h : OneLine what) : Brief (number what) := by
  rintro (_ | ⟨⟨kind, span⟩, ts⟩) fault rest hrun
  · cases hrun
    trivial
  · cases kind with
    | number value =>
      simp only [number] at hrun
      cases hvalue : Quantity.ofNat? value with
      | some quantity =>
        rw [hvalue] at hrun
        cases hrun
      | none =>
        rw [hvalue] at hrun
        exact brief_refuseFor (SyntaxFault.oneLine_outOfRange h) hrun
    | _ =>
      cases hrun
      exact SyntaxFault.oneLine_mismatch h

theorem brief_peek (kind : TokenKind) : Brief (peek kind) :=
  fun _ _ _ => nofun

theorem brief_skip (kind : TokenKind) : Brief (skip kind) := by
  rintro (_ | ⟨token, ts⟩) fault rest h
  · cases h
  · rw [skip] at h
    split at h <;> cases h

/-! ### Repetition -/

theorem brief_afterCommas (h : Brief item) (bound : Nat) : Brief (afterCommas item bound) := by
  induction bound with
  | zero => exact brief_pure _
  | succ bound ih =>
    refine (brief_skip _).bind fun found => brief_ite ?_ (brief_pure _)
    exact h.bind fun first => ih.bind fun rest => brief_pure _

theorem brief_upToBrace (h : Brief item) (bound : Nat) : Brief (upToBrace item bound) := by
  induction bound with
  | zero => exact h.bind fun first => brief_pure _
  | succ bound ih =>
    refine (brief_skip _).bind fun found => brief_ite (brief_pure _) ?_
    exact h.bind fun first => ih.bind fun rest => brief_pure _

theorem brief_commaSeparated (h : Brief item) : Brief (commaSeparated item) :=
  h.bind fun _ => brief_get.bind fun _ => (brief_afterCommas h _).bind fun _ => brief_pure _

theorem brief_braced (h : Brief item) : Brief (braced item) :=
  (brief_mark _).bind fun _ => h.bind fun _ => brief_get.bind fun _ =>
  (brief_upToBrace h _).bind fun _ => brief_pure _

/-! ### Productions -/

theorem brief_stats : Brief stats :=
  (brief_word _).bind fun _ => (brief_mark _).bind fun _ => (brief_word _).bind fun _ =>
  (brief_mark _).bind fun _ => (brief_number (by decide)).bind fun _ => (brief_mark _).bind fun _ =>
  (brief_word _).bind fun _ => (brief_mark _).bind fun _ =>
  (brief_number (by decide)).bind fun _ => (brief_mark _).bind fun _ => (brief_mark _).bind fun _ =>
  brief_pure _

theorem brief_trait : Brief trait := by
  refine (brief_choice (by decide) _).bind fun key => (brief_mark _).bind fun _ => ?_
  cases key with
  | damage => exact (brief_number (by decide)).bind fun _ => brief_pure _
  | cost => exact (brief_number (by decide)).bind fun _ => brief_pure _
  | height => exact (brief_choice (by decide) _).bind fun _ => brief_pure _
  | shape => exact (brief_choice (by decide) _).bind fun _ => brief_pure _
  | spinning => exact (brief_choice (by decide) _).bind fun _ => brief_pure _

theorem brief_strike (kind : ActionKind) : Brief (strike kind) :=
  (brief_ident (by decide)).bind fun ⟨_, _⟩ => (brief_mark _).bind fun _ =>
  (brief_commaSeparated brief_trait).bind fun _ => (brief_mark _).bind fun _ => brief_pure _

theorem brief_action : Brief action := by
  refine (brief_choice (by decide) _).bind fun kind => (brief_mark _).bind fun _ => ?_
  by_cases hblock : kind = .block
  · simp only [if_pos hblock]
    refine (brief_ident (by decide)).bind fun ⟨_, _⟩ => ?_
    exact (brief_pure _).bind fun _ => (brief_mark _).bind fun _ => brief_pure _
  · simp only [if_neg hblock]
    refine (brief_commaSeparated (brief_strike kind)).bind fun _ => ?_
    exact (brief_mark _).bind fun _ => brief_pure _

theorem brief_actions : Brief actions :=
  (brief_word _).bind fun _ => (brief_braced brief_action).bind fun _ => brief_pure _

theorem brief_combo : Brief combo :=
  (brief_ident (by decide)).bind fun ⟨_, _⟩ => (brief_mark _).bind fun _ =>
  (brief_word _).bind fun _ => (brief_mark _).bind fun _ => (brief_number (by decide)).bind fun _ =>
  (brief_mark _).bind fun _ => (brief_mark _).bind fun _ =>
  (brief_commaSeparated (brief_ident (by decide)).map).bind fun _ => (brief_mark _).bind fun _ =>
  brief_pure _

theorem brief_combos : Brief combos :=
  (brief_word _).bind fun _ => brief_braced brief_combo

theorem brief_fighter : Brief fighter :=
  (brief_word _).bind fun _ => (brief_ident (by decide)).bind fun ⟨_, _⟩ =>
  (brief_mark _).bind fun _ => brief_stats.bind fun ⟨_, _⟩ => brief_actions.bind fun _ =>
  (brief_consistent _).bind fun _ => brief_combos.bind fun _ => (brief_consistent _).bind fun _ =>
  (brief_mark _).bind fun _ => brief_pure _

theorem brief_condition : Brief condition :=
  (brief_choice (by decide) _).bind fun _ => (brief_mark _).bind fun _ =>
  (brief_choice (by decide) _).bind fun _ => (brief_accept (by decide) _).bind fun ⟨_, _⟩ =>
  (brief_number (by decide)).bind fun _ => brief_pure _

theorem brief_block {instruction : Parser Instruction} (h : Brief instruction) :
    Brief (block instruction) :=
  (brief_braced h).map

theorem brief_use : Brief use :=
  (brief_word _).bind fun _ => (brief_ident (by decide)).bind fun ⟨_, _⟩ =>
  (brief_mark _).bind fun _ => brief_pure _

theorem brief_choose {instruction : Parser Instruction} (h : Brief instruction) :
    Brief (choose instruction) := by
  refine (brief_word _).bind fun _ => (brief_mark _).bind fun _ => ?_
  refine brief_condition.bind fun _ => (brief_mark _).bind fun _ => (brief_block h).bind fun _ => ?_
  refine (brief_skip _).bind fun found => brief_ite ?_ ?_
  · exact (brief_block h).bind fun _ => brief_pure _
  · exact (brief_pure _).bind fun _ => brief_pure _

theorem brief_instructionWith {conditional : Parser Instruction} (h : Brief conditional) :
    Brief (instructionWith conditional) := by
  refine (brief_peek _).bind fun _ => brief_ite brief_use ?_
  exact (brief_peek _).bind fun _ => brief_ite h (brief_refuse (by decide))

/-- By induction on the levels of conditionals that are left. -/
theorem brief_instruction (levels : Nat) : Brief (instruction levels) := by
  induction levels with
  | zero => exact brief_instructionWith (brief_refuseFor (SyntaxFault.oneLine_tooDeep _))
  | succ levels ih => exact brief_instructionWith (brief_choose ih)

theorem brief_script : Brief script :=
  (brief_word _).bind fun _ => (brief_ident (by decide)).bind fun ⟨_, _⟩ =>
  (brief_block (brief_instruction _)).bind fun _ => brief_pure _

theorem brief_fight : Brief fight :=
  (brief_word _).bind fun _ => brief_braced brief_script

theorem brief_matchup : Brief matchup :=
  (brief_word _).bind fun _ => (brief_mark _).bind fun _ => (brief_word _).bind fun _ =>
  (brief_mark _).bind fun _ => (brief_ident (by decide)).bind fun ⟨_, _⟩ =>
  (brief_word _).bind fun _ => (brief_ident (by decide)).bind fun ⟨_, _⟩ =>
  (brief_mark _).bind fun _ => (brief_word _).bind fun _ => (brief_mark _).bind fun _ =>
  (brief_ident (by decide)).bind fun ⟨_, _⟩ => (brief_mark _).bind fun _ =>
  (brief_word _).bind fun _ => (brief_mark _).bind fun _ =>
  (brief_number (by decide)).bind fun _ => (brief_mark _).bind fun _ => (brief_mark _).bind fun _ =>
  brief_pure _

theorem brief_simulation : Brief simulation :=
  (brief_word _).bind fun _ => (brief_mark _).bind fun _ => brief_matchup.bind fun _ =>
  brief_fight.bind fun _ => (brief_mark _).bind fun _ => brief_pure _

theorem brief_fighters (library : Library) (bound : Nat) : Brief (fighters library bound) := by
  induction bound generalizing library with
  | zero => exact brief_pure _
  | succ bound ih =>
    refine brief_fighter.bind fun _ => (brief_consistent _).bind fun more => ?_
    exact (brief_peek _).bind fun _ => brief_ite (ih more) (brief_pure _)

theorem brief_atEnd : Brief atEnd := by
  rintro (_ | ⟨token, ts⟩) fault rest ⟨⟩
  exact SyntaxFault.oneLine_mismatch (TokenKind.oneLine_name _)

/-- What the reader of programs says about a token is on one line if the token is shown on one. -/
theorem brief_program : Brief program :=
  brief_get.bind fun _ => (brief_fighters _ _).bind fun _ => brief_simulation.bind fun ⟨_, _⟩ =>
  brief_atEnd.bind fun _ => brief_consistent _

end Parser

end Lucha
