import Lucha.Proofs.Parser.Verdict

/-!
# Readers at a numeral

What a reader does before it comes to a numeral does not depend on the value of that, nor on what
follows. Where some tokens stand before a numeral, a reader has answered when it is there, or has
failed, or it reads the numeral as a number and goes on with its value (`MeetsNumeral`). There is
one rule for each way to put readers together and one line for each production of the grammar, up to
the whole program (`Parser.numerate_program`).
-/

namespace Lucha.Parser

variable {α β : Type} {ts before behind : List Token} {ahead : List TokenKind} {kind : TokenKind}
  {p q item : Parser α} {f : α → Parser β} {a : α}

/-- The tokens begin with a numeral. -/
def OnNumeral (ts : List Token) : Prop :=
  ∃ value, Starts (.number value) ts

/-- The reader takes tokens from the front and puts none in their place. -/
def Leaves (p : Parser α) : Prop :=
  ∀ ts, left (p ts) <:+ ts

/-- The reader answers before it comes to the numeral behind some tokens. -/
def Passes (p : Parser α) (before : List Token) (a : α) (behind : List Token) : Prop :=
  ∀ ⦃rest⦄, OnNumeral rest → p (before ++ rest) = .ok a (behind ++ rest)

/-- What a reader does where a numeral stands behind some tokens, whichever it is and whatever
follows it. -/
inductive MeetsNumeral (p : Parser α) (before : List Token) : Prop where
  /-- It answers before the numeral. -/
  | passes (a : α) (behind : List Token) (run : Passes p before a behind)
  /-- It fails before the numeral, or refuses it as it would every other. -/
  | stops (run : ∀ ⦃rest⦄, OnNumeral rest →
      ∃ fault behind, p (before ++ rest) = .error fault (behind ++ rest))
  /-- It reads the numeral as a number. -/
  | reads (what : String) (k : Quantity → Parser α) (leaves : ∀ value, Leaves (k value))
    (run : ∀ ⦃rest⦄, OnNumeral rest → p (before ++ rest) = (number what >>= k) rest)

/-- The reader meets the numerals behind any tokens. -/
structure Numerate (p : Parser α) : Prop where
  leaves : Leaves p
  meets : ∀ before, MeetsNumeral p before

theorem onNumeral_cons {token : Token} {value : Nat} (h : token.kind = .number value)
    (ts : List Token) : OnNumeral (token :: ts) :=
  ⟨value, starts_cons.mpr h⟩

theorem onNumeral_zero : OnNumeral [⟨.number 0, .none⟩] :=
  onNumeral_cons rfl []

/-- Where a numeral stands there is a token with its value. -/
theorem OnNumeral.exists_eq (h : OnNumeral ts) :
    ∃ value span tail, ts = ⟨.number value, span⟩ :: tail := by
  obtain ⟨value, hstarts⟩ := h
  cases ts with
  | nil => exact absurd hstarts not_starts_nil
  | cons token tail =>
    obtain ⟨kind, span⟩ := token
    obtain rfl : kind = .number value := starts_cons.mp hstarts
    exact ⟨value, span, tail, rfl⟩

theorem OnNumeral.ne_nil (h : OnNumeral ts) : ts ≠ [] := by
  obtain ⟨value, span, tail, rfl⟩ := h.exists_eq
  exact List.cons_ne_nil _ _

/-- Other tokens than numerals do not stand where a numeral does. -/
theorem OnNumeral.not_starts (h : OnNumeral ts) (hkind : ∀ value, kind ≠ .number value) :
    ¬ Starts kind ts := by
  obtain ⟨value, hstarts⟩ := h
  intro hother
  exact hkind value (Option.some.inj (hother.symm.trans hstarts))

/-! ### What is left -/

/-- A reader that repeats its runs takes its tokens from the front. -/
theorem Rereads.leaves (h : Rereads ahead p) : Leaves p :=
  fun ts => have ⟨taken, htaken⟩ := h ts; ⟨taken, htaken.append_left⟩

theorem leaves_pure (a : α) : Leaves (pure a : Parser α) :=
  fun ts => List.suffix_refl ts

/-- Readers one after the other take their tokens one after the other. -/
theorem Leaves.bind (hp : Leaves p) (hf : ∀ a, Leaves (f a)) : Leaves (p >>= f) := by
  intro ts
  have hleft := hp ts
  cases hrun : p ts with
  | ok a mid =>
    rw [hrun] at hleft
    rw [bind_of_ok hrun]
    exact (hf a mid).trans hleft
  | error fault rest =>
    rw [hrun] at hleft
    rw [bind_of_error hrun]
    exact hleft

theorem Leaves.map (h : Leaves p) (g : α → β) : Leaves (g <$> p) := by
  rw [map_eq_pure_bind]
  exact h.bind fun _ => leaves_pure _

theorem leaves_ite {found : Bool} (hp : Leaves p) (hq : Leaves q) :
    Leaves (if found = true then p else q) := by
  split
  · exact hp
  · exact hq

theorem leaves_peek (kind : TokenKind) : Leaves (peek kind) :=
  fun ts => List.suffix_refl ts

theorem leaves_skip (kind : TokenKind) : Leaves (skip kind) := by
  rintro (_ | ⟨token, ts⟩)
  · exact List.suffix_refl []
  · rw [skip]
    split
    · exact List.suffix_cons token ts
    · exact List.suffix_refl _

theorem leaves_upToBrace (h : Leaves item) (bound : Nat) : Leaves (upToBrace item bound) := by
  induction bound with
  | zero => exact h.bind fun _ => leaves_pure _
  | succ bound ih =>
    refine (leaves_skip _).bind fun found => leaves_ite (leaves_pure _) ?_
    exact h.bind fun _ => ih.bind fun _ => leaves_pure _

/-- A reader that answers before the numeral has no more tokens left than before. -/
theorem Passes.length_le (h : Passes p before a behind) (hp : Rereads ahead p) :
    behind.length ≤ before.length := by
  have hle := hp.length_le (h onNumeral_zero)
  rw [List.length_append, List.length_append] at hle
  omega

/-- It has fewer left if it does not answer without a token. -/
theorem Passes.length_lt (h : Passes p before a behind) (hp : Rereads ahead p)
    (hungry : Hungry p) : behind.length < before.length := by
  have hlt := hp.length_lt hungry (h onNumeral_zero)
  rw [List.length_append, List.length_append] at hlt
  omega

/-! ### Readers that are put together -/

namespace MeetsNumeral

/-- A reader does as another one does behind other tokens. -/
theorem congr (h : MeetsNumeral p behind)
    (heq : ∀ ⦃rest⦄, OnNumeral rest → q (before ++ rest) = p (behind ++ rest)) :
    MeetsNumeral q before := by
  cases h with
  | passes a last run => exact .passes a last fun rest hrest => (heq hrest).trans (run hrest)
  | stops run =>
    refine .stops fun rest hrest => ?_
    obtain ⟨fault, last, hfails⟩ := run hrest
    exact ⟨fault, last, (heq hrest).trans hfails⟩
  | reads what k leaves run =>
    exact .reads what k leaves fun rest hrest => (heq hrest).trans (run hrest)

/-- A reader and what goes on from its answer, where that comes before the numeral. -/
theorem bind (h : MeetsNumeral p before) (hf : ∀ a, Leaves (f a))
    (hmeets : ∀ a behind, Passes p before a behind → MeetsNumeral (f a) behind) :
    MeetsNumeral (p >>= f) before := by
  cases h with
  | passes a behind run =>
    exact (hmeets a behind run).congr fun rest hrest => bind_of_ok (run hrest)
  | stops run =>
    refine .stops fun rest hrest => ?_
    obtain ⟨fault, behind, hfails⟩ := run hrest
    exact ⟨fault, behind, bind_of_error hfails⟩
  | reads what k leaves run =>
    refine .reads what (fun value => k value >>= f) (fun value => (leaves value).bind hf) ?_
    intro rest hrest
    rw [← bind_assoc]
    exact bind_congr_left (run hrest)

/-- What a reader does at a numeral does not depend on what becomes of its answer. -/
theorem map (h : MeetsNumeral p before) (g : α → β) : MeetsNumeral (g <$> p) before := by
  rw [map_eq_pure_bind]
  exact h.bind (fun _ => leaves_pure _) fun a behind _ => .passes (g a) behind fun _ _ => rfl

end MeetsNumeral

theorem numerate_pure (a : α) : Numerate (pure a : Parser α) where
  leaves := leaves_pure a
  meets before := .passes a before fun _ _ => rfl

/-- Readers one after the other meet the numeral, at the latest when the second one comes to it. -/
theorem Numerate.bind (hp : Numerate p) (hf : ∀ a, Numerate (f a)) : Numerate (p >>= f) where
  leaves := hp.leaves.bind fun a => (hf a).leaves
  meets before := (hp.meets before).bind (fun a => (hf a).leaves) fun a behind _ =>
    (hf a).meets behind

theorem Numerate.map (h : Numerate p) (g : α → β) : Numerate (g <$> p) where
  leaves := h.leaves.map g
  meets before := (h.meets before).map g

/-- A check of names takes nothing, and comes out the same before every numeral. -/
theorem numerate_consistent (e : Except Inconsistency α) : Numerate (consistent e) := by
  have hreads : Rereads [] (consistent e) := rereads_consistent e
  refine ⟨hreads.leaves, fun before => ?_⟩
  cases e with
  | ok a => exact .passes a before fun _ _ => rfl
  | error i => exact .stops fun _ _ => ⟨.inconsistent i, before, rfl⟩

/-- A reader that goes on behind a token that is no numeral, or else without it. -/
theorem meetsNumeral_skip (hkind : ∀ value, kind ≠ .number value)
    (hp : ∀ token tail, before = token :: tail → MeetsNumeral p tail)
    (hq : MeetsNumeral q before) :
    MeetsNumeral (skip kind >>= fun found => if found = true then p else q) before := by
  cases before with
  | nil => exact hq.congr fun rest hrest => skip_bind_of_not_starts (hrest.not_starts hkind)
  | cons token tail =>
    by_cases htoken : token.kind = kind
    · exact (hp token tail rfl).congr fun rest _ => skip_bind_of_kind htoken
    · exact hq.congr fun rest _ => skip_bind_of_not_starts (mt starts_cons.mp htoken)

/-- A reader that looks for a token that is no numeral. -/
theorem meetsNumeral_peek (hkind : ∀ value, kind ≠ .number value) (hp : MeetsNumeral p before)
    (hq : MeetsNumeral q before) :
    MeetsNumeral (peek kind >>= fun found => if found = true then p else q) before := by
  cases before with
  | nil => exact hq.congr fun rest hrest => peek_bind_of_not_starts (hrest.not_starts hkind)
  | cons token tail =>
    by_cases htoken : token.kind = kind
    · exact hp.congr fun rest _ => peek_bind_of_starts (starts_cons.mpr htoken)
    · exact hq.congr fun rest _ => peek_bind_of_not_starts (mt starts_cons.mp htoken)

/-- An optional token that is no numeral is not there where the numeral stands. -/
theorem numerate_skip (hkind : ∀ value, kind ≠ .number value) (hp : Numerate p)
    (hq : Numerate q) :
    Numerate (skip kind >>= fun found => if found = true then p else q) where
  leaves := (leaves_skip kind).bind fun _ => leaves_ite hp.leaves hq.leaves
  meets before := meetsNumeral_skip hkind (fun _ tail _ => hp.meets tail) (hq.meets before)

theorem numerate_peek (hkind : ∀ value, kind ≠ .number value) (hp : Numerate p)
    (hq : Numerate q) :
    Numerate (peek kind >>= fun found => if found = true then p else q) where
  leaves := (leaves_peek kind).bind fun _ => leaves_ite hp.leaves hq.leaves
  meets before := meetsNumeral_peek hkind (hp.meets before) (hq.meets before)

/-! ### Tokens -/

/-- A reader that refuses every token. -/
theorem numerate_of_refused (hnil : left (p []) = [])
    (h : ∀ token ts, ∃ fault, p (token :: ts) = .error fault (token :: ts)) : Numerate p where
  leaves := by
    rintro (_ | ⟨token, ts⟩)
    · exact ⟨[], hnil⟩
    · obtain ⟨fault, hfails⟩ := h token ts
      rw [hfails]
      exact List.suffix_refl _
  meets before := by
    refine .stops fun rest hrest => ?_
    obtain ⟨value, span, tail, rfl⟩ := hrest.exists_eq
    cases before with
    | nil =>
      obtain ⟨fault, hfails⟩ := h ⟨.number value, span⟩ tail
      exact ⟨fault, [], hfails⟩
    | cons token before =>
      obtain ⟨fault, hfails⟩ := h token (before ++ ⟨.number value, span⟩ :: tail)
      exact ⟨fault, token :: before, hfails⟩

theorem numerate_refuse (expected : String) : Numerate (refuse expected : Parser α) :=
  numerate_of_refused rfl fun _ _ => ⟨_, rfl⟩

theorem numerate_refuseFor (fault : SyntaxFault) : Numerate (refuseFor fault : Parser α) :=
  numerate_of_refused rfl fun _ _ => ⟨_, rfl⟩

theorem numerate_atEnd : Numerate atEnd :=
  numerate_of_refused rfl fun _ _ => ⟨_, rfl⟩

/-- A reader of a token that is no numeral. -/
theorem numerate_accept {expected : String} {pick : TokenKind → Option α}
    (hpick : ∀ value, pick (.number value) = none) : Numerate (accept expected pick) where
  leaves := by
    rintro (_ | ⟨token, ts⟩)
    · exact List.suffix_refl []
    · rw [accept]
      split
      · exact List.suffix_cons token ts
      · exact List.suffix_refl _
  meets before := by
    cases before with
    | nil =>
      refine .stops fun rest hrest => ?_
      obtain ⟨value, span, tail, rfl⟩ := hrest.exists_eq
      refine ⟨.at (.mismatch expected (.number value)) ⟨.number value, span⟩, [], ?_⟩
      rw [List.nil_append, accept, hpick]
      rfl
    | cons token before =>
      cases htoken : pick token.kind with
      | some a =>
        refine .passes (a, token.span) before fun rest _ => ?_
        rw [List.cons_append, accept, htoken]
      | none =>
        refine .stops fun rest _ =>
          ⟨.at (.mismatch expected token.kind) token, token :: before, ?_⟩
        rw [List.cons_append, accept, htoken]
        rfl

theorem numerate_expect (hkind : ∀ value, kind ≠ .number value) : Numerate (expect kind) :=
  (numerate_accept fun value => if_neg (hkind value).symm).map _

theorem numerate_word (keyword : Keyword) : Numerate (word keyword) :=
  numerate_expect fun _ => nofun

theorem numerate_mark (symbol : Symbol) : Numerate (mark symbol) :=
  numerate_expect fun _ => nofun

theorem numerate_choice (expected : String) (pick : Keyword → Option α) :
    Numerate (choice expected pick) :=
  (numerate_accept fun _ => rfl).map _

theorem numerate_ident (what : String) : Numerate (ident what) :=
  numerate_accept fun _ => rfl

/-- A reader of a number reads the numeral, if there is nothing before it. -/
theorem numerate_number (what : String) : Numerate (number what) where
  leaves := (steady_number what).rereads.leaves
  meets before := by
    rcases before with _ | ⟨⟨kind, span⟩, before⟩
    · exact .reads what pure leaves_pure fun rest _ => by rw [bind_pure, List.nil_append]
    · cases kind with
      | number value =>
        cases hvalue : Quantity.ofNat? value with
        | some quantity =>
          exact .passes quantity before fun rest _ => by simp [number, hvalue]
        | none =>
          refine .stops fun rest _ => ⟨.at (.outOfRange what) ⟨.number value, span⟩,
            ⟨.number value, span⟩ :: before, ?_⟩
          simp [number, hvalue, refuseFor]
      | _ => exact .stops fun rest _ => ⟨.at (.mismatch what _) _, _ :: before, rfl⟩

/-! ### Repetition -/

/-- More items after commas meet the numeral, by induction on the tokens before it. -/
theorem numerate_moreAfterCommas (hitem : Steady [] item) (h : Numerate item) :
    Numerate (moreAfterCommas item) where
  leaves := (steady_moreAfterCommas hitem).rereads.leaves
  meets before := by
    -- by induction on the tokens before the numeral, which are fewer behind each item
    induction hn : before.length using Nat.strongRecOn generalizing before with
    | _ n ih =>
      rw [moreAfterCommas_eq hitem.rereads]
      refine meetsNumeral_skip (fun _ => nofun) (fun token tail htail => ?_)
        ((numerate_pure _).meets before)
      rw [htail, List.length_cons] at hn
      refine (h.meets tail).bind
        (fun first => (steady_moreAfterCommas hitem).rereads.leaves.map _)
        fun first behind hfirst => ?_
      have hle := hfirst.length_le hitem.rereads
      exact (ih behind.length (by omega) behind rfl).map (first :: ·)

theorem numerate_commaSeparated (hitem : Steady [] item) (h : Numerate item) :
    Numerate (commaSeparated item) :=
  h.bind fun first => (numerate_moreAfterCommas hitem h).map (first :: ·)

/-- More items up to a closing brace meet the numeral, by induction on the tokens before it. -/
theorem numerate_untilBrace (hitem : Rereads ahead item) (hungry : Hungry item)
    (h : Numerate item) : Numerate (untilBrace item) := by
  have hleaves : Leaves (untilBrace item) := fun ts => leaves_upToBrace h.leaves _ ts
  refine ⟨hleaves, fun before => ?_⟩
  induction hn : before.length using Nat.strongRecOn generalizing before with
  | _ n ih =>
    rw [untilBrace_eq hitem hungry]
    refine meetsNumeral_skip (fun _ => nofun) (fun _ tail _ => (numerate_pure _).meets tail) ?_
    refine (h.meets before).bind (fun first => hleaves.map _) fun first behind hfirst => ?_
    have hlt := hfirst.length_lt hitem hungry
    exact (ih behind.length (by omega) behind rfl).map (first :: ·)

theorem numerate_braced (hitem : Rereads ahead item) (hungry : Hungry item) (h : Numerate item) :
    Numerate (braced item) :=
  (numerate_mark _).bind fun _ => h.bind fun first =>
  (numerate_untilBrace hitem hungry h).map (first :: ·)

/-! ### Productions -/

theorem numerate_stats : Numerate stats :=
  (numerate_word _).bind fun _ => (numerate_mark _).bind fun _ => (numerate_word _).bind fun _ =>
  (numerate_mark _).bind fun _ => (numerate_number _).bind fun _ => (numerate_mark _).bind fun _ =>
  (numerate_word _).bind fun _ => (numerate_mark _).bind fun _ =>
  (numerate_number _).bind fun _ => (numerate_mark _).bind fun _ => (numerate_mark _).bind fun _ =>
  numerate_pure _

theorem numerate_trait : Numerate trait := by
  refine (numerate_choice _ _).bind fun key => (numerate_mark _).bind fun _ => ?_
  cases key with
  | damage => exact (numerate_number _).bind fun _ => numerate_pure _
  | cost => exact (numerate_number _).bind fun _ => numerate_pure _
  | height => exact (numerate_choice _ _).bind fun _ => numerate_pure _
  | shape => exact (numerate_choice _ _).bind fun _ => numerate_pure _
  | spinning => exact (numerate_choice _ _).bind fun _ => numerate_pure _

theorem numerate_strike (kind : ActionKind) : Numerate (strike kind) :=
  (numerate_ident _).bind fun ⟨_, _⟩ => (numerate_mark _).bind fun _ =>
  (numerate_commaSeparated steady_trait numerate_trait).bind fun _ =>
  (numerate_mark _).bind fun _ => numerate_pure _

/-- A line of actions has numbers in its attributes only, and a block has none. -/
theorem numerate_action : Numerate action := by
  refine (numerate_choice _ _).bind fun kind => (numerate_mark _).bind fun _ => ?_
  by_cases hblock : kind = .block
  · simp only [if_pos hblock]
    refine (numerate_ident _).bind fun ⟨_, _⟩ => ?_
    exact (numerate_pure _).bind fun _ => (numerate_mark _).bind fun _ => numerate_pure _
  · simp only [if_neg hblock]
    refine (numerate_commaSeparated (steady_strike kind) (numerate_strike kind)).bind fun _ => ?_
    exact (numerate_mark _).bind fun _ => numerate_pure _

theorem numerate_actions : Numerate actions :=
  (numerate_word _).bind fun _ =>
  (numerate_braced steady_action.rereads ⟨_, rfl⟩ numerate_action).bind fun _ => numerate_pure _

theorem numerate_combo : Numerate combo :=
  (numerate_ident _).bind fun ⟨_, _⟩ => (numerate_mark _).bind fun _ =>
  (numerate_word _).bind fun _ => (numerate_mark _).bind fun _ => (numerate_number _).bind fun _ =>
  (numerate_mark _).bind fun _ => (numerate_mark _).bind fun _ =>
  (numerate_commaSeparated ((steady_ident _).map _) ((numerate_ident _).map _)).bind fun _ =>
  (numerate_mark _).bind fun _ => numerate_pure _

theorem numerate_combos : Numerate combos :=
  (numerate_word _).bind fun _ => numerate_braced steady_combo.rereads ⟨_, rfl⟩ numerate_combo

theorem numerate_fighter : Numerate fighter :=
  (numerate_word _).bind fun _ => (numerate_ident _).bind fun ⟨_, _⟩ =>
  (numerate_mark _).bind fun _ => numerate_stats.bind fun ⟨_, _⟩ => numerate_actions.bind fun _ =>
  (numerate_consistent _).bind fun _ => numerate_combos.bind fun _ =>
  (numerate_consistent _).bind fun _ => (numerate_mark _).bind fun _ => numerate_pure _

theorem numerate_condition : Numerate condition :=
  (numerate_choice _ _).bind fun _ => (numerate_mark _).bind fun _ =>
  (numerate_choice _ _).bind fun _ => (numerate_accept fun _ => rfl).bind fun ⟨_, _⟩ =>
  (numerate_number _).bind fun _ => numerate_pure _

theorem numerate_block {instruction : Parser Instruction} (hreads : Rereads ahead instruction)
    (hungry : Hungry instruction) (h : Numerate instruction) : Numerate (block instruction) :=
  (numerate_braced hreads hungry h).map _

theorem numerate_use : Numerate use :=
  (numerate_word _).bind fun _ => (numerate_ident _).bind fun ⟨_, _⟩ =>
  (numerate_mark _).bind fun _ => numerate_pure _

theorem numerate_choose {instruction : Parser Instruction} (h : Numerate (block instruction)) :
    Numerate (choose instruction) := by
  refine (numerate_word _).bind fun _ => (numerate_mark _).bind fun _ => ?_
  refine numerate_condition.bind fun _ => (numerate_mark _).bind fun _ => h.bind fun _ => ?_
  refine numerate_skip (fun _ => nofun) ?_ ?_
  · exact h.bind fun _ => numerate_pure _
  · exact (numerate_pure _).bind fun _ => numerate_pure _

theorem numerate_instructionWith {conditional : Parser Instruction} (h : Numerate conditional) :
    Numerate (instructionWith conditional) :=
  numerate_peek (fun _ => nofun) numerate_use
    (numerate_peek (fun _ => nofun) h (numerate_refuse _))

/-- By induction on the levels of conditionals that are left. -/
theorem numerate_instruction (levels : Nat) : Numerate (instruction levels) := by
  induction levels with
  | zero => exact numerate_instructionWith (numerate_refuseFor _)
  | succ levels ih =>
    exact numerate_instructionWith (numerate_choose
      (numerate_block (steady_instruction levels).rereads (hungry_instruction levels) ih))

theorem numerate_script : Numerate script :=
  (numerate_word _).bind fun _ => (numerate_ident _).bind fun ⟨_, _⟩ =>
  (numerate_block (steady_instruction _).rereads (hungry_instruction _)
    (numerate_instruction _)).bind fun _ => numerate_pure _

theorem numerate_fight : Numerate fight :=
  (numerate_word _).bind fun _ => numerate_braced steady_script.rereads ⟨_, rfl⟩ numerate_script

theorem numerate_matchup : Numerate matchup :=
  (numerate_word _).bind fun _ => (numerate_mark _).bind fun _ => (numerate_word _).bind fun _ =>
  (numerate_mark _).bind fun _ => (numerate_ident _).bind fun ⟨_, _⟩ =>
  (numerate_word _).bind fun _ => (numerate_ident _).bind fun ⟨_, _⟩ =>
  (numerate_mark _).bind fun _ => (numerate_word _).bind fun _ => (numerate_mark _).bind fun _ =>
  (numerate_ident _).bind fun ⟨_, _⟩ => (numerate_mark _).bind fun _ =>
  (numerate_word _).bind fun _ => (numerate_mark _).bind fun _ =>
  (numerate_number _).bind fun _ => (numerate_mark _).bind fun _ => (numerate_mark _).bind fun _ =>
  numerate_pure _

theorem numerate_simulation : Numerate simulation :=
  (numerate_word _).bind fun _ => (numerate_mark _).bind fun _ => numerate_matchup.bind fun _ =>
  numerate_fight.bind fun _ => (numerate_mark _).bind fun _ => numerate_pure _

/-- More fighters meet the numeral, by induction on the tokens before it. -/
theorem numerate_manyFighters (library : Library) : Numerate (manyFighters library) := by
  have hleaves (library : Library) : Leaves (manyFighters library) :=
    (rereads_manyFighters library).leaves
  have hmore (library : Library) : Leaves (peek (.keyword .luchador) >>= fun found =>
      if found = true then manyFighters library else pure library) :=
    (leaves_peek _).bind fun _ => leaves_ite (hleaves library) (leaves_pure library)
  refine ⟨hleaves library, fun before => ?_⟩
  induction hn : before.length using Nat.strongRecOn generalizing before library with
  | _ n ih =>
    rw [manyFighters_eq]
    refine (numerate_fighter.meets before).bind
      (fun f => (numerate_consistent _).leaves.bind hmore) fun f behind hfirst => ?_
    refine ((numerate_consistent _).meets behind).bind hmore fun more last hdeclare => ?_
    have hlt := hfirst.length_lt rereads_fighter ⟨_, rfl⟩
    have hdeclares : Rereads [] (consistent (library.declare f)) := rereads_consistent _
    have hle := hdeclare.length_le hdeclares
    exact meetsNumeral_peek (fun _ => nofun) (ih last.length (by omega) more last rfl)
      ((numerate_pure more).meets last)

/-- The reader of programs meets the numerals behind any tokens. -/
theorem numerate_program : Numerate program :=
  (numerate_manyFighters .empty).bind fun _ => numerate_simulation.bind fun ⟨_, _⟩ =>
  numerate_atEnd.bind fun _ => numerate_consistent _

end Lucha.Parser
