import Lucha.Parser.Program
import Lucha.Proofs.Parser.Lookahead
import Lucha.Proofs.Program.Spans

/-!
# Readers do not look at spans

A reader decides by the kinds of tokens alone and hands their spans on. So it reads tokens without
their spans as it reads them with their spans, and its answers and faults are the same without the
spans (`Blind`). There is one rule for each way to put readers together and one line for each
production of the grammar, up to the whole program (`Parser.blind_program`).
-/

namespace Lucha

/-- A token in no source text. -/
def Token.eraseSpan (t : Token) : Token := { t with span := .none }

/-- A fault in no source text. -/
def Fault.eraseSpans : Fault → Fault
  | .at fault token => .at fault token.eraseSpan
  | atEnd expected => atEnd expected
  | inconsistent i => inconsistent i.eraseLines

/-- An instruction in no source text. -/
def Instruction.eraseSpans : Instruction → Instruction
  | use name _ => use name .none
  | choose condition yes no => choose condition yes.eraseSpans no.eraseSpans

/-- The spans of a block are those of its instructions. -/
theorem Block.eraseSpans_ofList (instructions : List Instruction) :
    (ofList instructions).eraseSpans = ofList (instructions.map Instruction.eraseSpans) := by
  induction instructions with
  | nil => rfl
  | cons first rest ih =>
    rw [List.map_cons, ofList, List.foldr_cons, ofList, List.foldr_cons, ← ofList, ← ofList, ← ih]
    cases first <;> rfl

namespace Parser

open EStateM (Result)

variable {α β : Type} {e : α → α} {e' : β → β} {p p' item item' : Parser α} {f f' : α → Parser β}

/-- How a run comes out without spans, if `e` takes them from an answer. -/
def erased (e : α → α) : Result Fault (List Token) α → Result Fault (List Token) α
  | .ok a rest => .ok (e a) (rest.map Token.eraseSpan)
  | .error fault rest => .error fault.eraseSpans (rest.map Token.eraseSpan)

/-- One reader reads tokens without their spans as another reads them with their spans. -/
def Blind (e : α → α) (p p' : Parser α) : Prop :=
  ∀ ts, p' (ts.map Token.eraseSpan) = erased e (p ts)

/-! ### Readers that are put together -/

theorem blind_pure {a a' : α} (h : a' = e a) : Blind e (pure a) (pure a') := by
  subst h
  exact fun _ => rfl

/-- Readers one after the other see no spans if neither does and what follows an answer follows the
erased one as well. -/
theorem Blind.bind (hp : Blind e p p') (hf : ∀ a, Blind e' (f a) (f' (e a))) :
    Blind e' (p >>= f) (p' >>= f') := by
  intro ts
  have hrun' := hp ts
  cases hrun : p ts with
  | ok a mid =>
    rw [hrun] at hrun'
    rw [bind_of_ok hrun, bind_of_ok hrun']
    exact hf a mid
  | error fault rest =>
    rw [hrun] at hrun'
    rw [bind_of_error hrun, bind_of_error hrun']
    rfl

/-- An answer may be changed before its spans are erased or after. -/
theorem Blind.map {g g' : α → β} (hp : Blind e p p') (hg : ∀ a, g' (e a) = e' (g a)) :
    Blind e' (g <$> p) (g' <$> p') := by
  rw [map_eq_pure_bind, map_eq_pure_bind]
  exact hp.bind fun a => blind_pure (hg a)

theorem blind_ite {found : Bool} {q q' : Parser α} (hp : Blind e p p') (hq : Blind e q q') :
    Blind e (if found = true then p else q) (if found = true then p' else q') := by
  split
  · exact hp
  · exact hq

/-- A check of names finds the same names with spans and without. -/
theorem blind_consistent {x x' : Except Inconsistency α} (h : x' = eraseDeclared e x) :
    Blind e (consistent x) (consistent x') := by
  subst h
  cases x <;> exact fun _ => rfl

/-! ### Tokens -/

theorem blind_refuse (expected : String) : Blind e (refuse expected) (refuse expected) := by
  rintro (_ | ⟨token, ts⟩) <;> rfl

theorem blind_refuseFor (fault : SyntaxFault) : Blind e (refuseFor fault) (refuseFor fault) := by
  rintro (_ | ⟨token, ts⟩) <;> rfl

/-- A token is picked by its kind, so its span goes into the answer only. -/
theorem blind_accept (expected : String) (pick : TokenKind → Option α) :
    Blind (fun answer => (answer.1, .none)) (accept expected pick) (accept expected pick) := by
  rintro (_ | ⟨token, ts⟩)
  · rfl
  · have hkind : token.eraseSpan.kind = token.kind := rfl
    rw [List.map_cons, accept, accept, hkind]
    cases pick token.kind <;> rfl

theorem blind_expect (kind : TokenKind) :
    Blind (fun _ => .none) (expect kind) (expect kind) :=
  (blind_accept _ _).map fun _ => rfl

theorem blind_word (keyword : Keyword) :
    Blind (fun _ => .none) (word keyword) (word keyword) :=
  blind_expect _

theorem blind_mark (symbol : Symbol) :
    Blind (fun _ => .none) (mark symbol) (mark symbol) :=
  blind_expect _

theorem blind_choice (expected : String) (pick : Keyword → Option α) :
    Blind id (choice expected pick) (choice expected pick) :=
  (blind_accept _ _).map fun _ => rfl

theorem blind_ident (what : String) :
    Blind (fun answer => (answer.1, .none)) (ident what) (ident what) :=
  blind_accept _ _

theorem blind_number (what : String) : Blind id (number what) (number what) := by
  rintro (_ | ⟨⟨kind, span⟩, ts⟩)
  · rfl
  · cases kind with
    | number value =>
      simp only [number, List.map_cons, Token.eraseSpan]
      cases Quantity.ofNat? value <;> rfl
    | _ => rfl

theorem blind_peek (kind : TokenKind) : Blind id (peek kind) (peek kind) := by
  rintro (_ | ⟨token, ts⟩) <;> rfl

theorem blind_skip (kind : TokenKind) : Blind id (skip kind) (skip kind) := by
  rintro (_ | ⟨token, ts⟩)
  · rfl
  · have hkind : token.eraseSpan.kind = token.kind := rfl
    rw [List.map_cons, skip, skip, hkind]
    split <;> rfl

/-! ### Repetition -/

theorem blind_afterCommas (h : Blind e item item') (bound : Nat) :
    Blind (List.map e) (afterCommas item bound) (afterCommas item' bound) := by
  induction bound with
  | zero => exact blind_pure rfl
  | succ bound ih =>
    refine (blind_skip _).bind fun found => blind_ite ?_ (blind_pure rfl)
    exact h.bind fun first => ih.bind fun rest => blind_pure rfl

theorem blind_upToBrace (h : Blind e item item') (bound : Nat) :
    Blind (List.map e) (upToBrace item bound) (upToBrace item' bound) := by
  induction bound with
  | zero => exact h.bind fun first => blind_pure rfl
  | succ bound ih =>
    refine (blind_skip _).bind fun found => blind_ite (blind_pure rfl) ?_
    exact h.bind fun first => ih.bind fun rest => blind_pure rfl

theorem blind_get : Blind (List.map Token.eraseSpan) get get :=
  fun _ => rfl

theorem blind_commaSeparated (h : Blind e item item') :
    Blind (List.map e) (commaSeparated item) (commaSeparated item') := by
  refine h.bind fun first => blind_get.bind fun ts => ?_
  rw [List.length_map]
  exact (blind_afterCommas h _).bind fun rest => blind_pure rfl

theorem blind_braced (h : Blind e item item') :
    Blind (List.map e) (braced item) (braced item') := by
  refine (blind_mark _).bind fun _ => h.bind fun first => blind_get.bind fun ts => ?_
  rw [List.length_map]
  exact (blind_upToBrace h _).bind fun rest => blind_pure rfl

/-! ### Productions -/

theorem blind_condition : Blind id condition condition := by
  refine (blind_choice _ _).bind fun subject => (blind_mark _).bind fun _ => ?_
  refine (blind_choice _ _).bind fun stat => (blind_accept _ _).bind fun comparison => ?_
  exact (blind_number _).bind fun threshold => blind_pure rfl

theorem blind_block {instruction instruction' : Parser Instruction}
    (h : Blind Instruction.eraseSpans instruction instruction') :
    Blind Block.eraseSpans (block instruction) (block instruction') :=
  (blind_braced h).map fun instructions => (Block.eraseSpans_ofList instructions).symm

theorem blind_use : Blind Instruction.eraseSpans use use := by
  refine (blind_word _).bind fun _ => (blind_ident _).bind fun name => ?_
  exact (blind_mark _).bind fun _ => blind_pure rfl

/-- A conditional keeps the spans of what is in its blocks, and no other. -/
theorem blind_choose {instruction instruction' : Parser Instruction}
    (h : Blind Instruction.eraseSpans instruction instruction') :
    Blind Instruction.eraseSpans (choose instruction) (choose instruction') := by
  refine (blind_word _).bind fun _ => (blind_mark _).bind fun _ => ?_
  refine blind_condition.bind fun condition => (blind_mark _).bind fun _ => ?_
  refine (blind_block h).bind fun yes => (blind_skip _).bind fun found => blind_ite ?_ ?_
  · exact (blind_block h).bind fun no => blind_pure rfl
  · exact blind_pure rfl

theorem blind_instructionWith {conditional conditional' : Parser Instruction}
    (h : Blind Instruction.eraseSpans conditional conditional') :
    Blind Instruction.eraseSpans (instructionWith conditional) (instructionWith conditional') := by
  refine (blind_peek _).bind fun found => blind_ite blind_use ?_
  exact (blind_peek _).bind fun found => blind_ite h (blind_refuse _)

/-- By induction on the levels of conditionals that are left. -/
theorem blind_instruction (levels : Nat) :
    Blind Instruction.eraseSpans (instruction levels) (instruction levels) := by
  induction levels with
  | zero => exact blind_instructionWith (blind_refuseFor _)
  | succ levels ih => exact blind_instructionWith (blind_choose ih)

theorem blind_script : Blind Script.eraseSpans script script := by
  refine (blind_word _).bind fun span => (blind_ident _).bind fun name => ?_
  exact (blind_block (blind_instruction _)).bind fun body => blind_pure rfl

theorem blind_fight : Blind (List.map Script.eraseSpans) fight fight :=
  (blind_word _).bind fun _ => blind_braced blind_script

theorem blind_matchup : Blind Matchup.eraseSpan matchup matchup := by
  refine (blind_word _).bind fun span => (blind_mark _).bind fun _ => ?_
  refine (blind_word _).bind fun _ => (blind_mark _).bind fun _ => ?_
  refine (blind_ident _).bind fun fighterA => (blind_word _).bind fun _ => ?_
  refine (blind_ident _).bind fun fighterB => (blind_mark _).bind fun _ => ?_
  refine (blind_word _).bind fun _ => (blind_mark _).bind fun _ => ?_
  refine (blind_ident _).bind fun starter => (blind_mark _).bind fun _ => ?_
  refine (blind_word _).bind fun _ => (blind_mark _).bind fun _ => ?_
  refine (blind_number _).bind fun maxTurns => (blind_mark _).bind fun _ => ?_
  exact (blind_mark _).bind fun _ => blind_pure rfl

theorem blind_simulation :
    Blind (Prod.map Matchup.eraseSpan (List.map Script.eraseSpans)) simulation simulation := by
  refine (blind_word _).bind fun _ => (blind_mark _).bind fun _ => ?_
  refine blind_matchup.bind fun m => blind_fight.bind fun scripts => ?_
  exact (blind_mark _).bind fun _ => blind_pure rfl

theorem blind_stats : Blind id stats stats := by
  refine (blind_word _).bind fun _ => (blind_mark _).bind fun _ => ?_
  refine (blind_word _).bind fun _ => (blind_mark _).bind fun _ => ?_
  refine (blind_number _).bind fun hp => (blind_mark _).bind fun _ => ?_
  refine (blind_word _).bind fun _ => (blind_mark _).bind fun _ => ?_
  refine (blind_number _).bind fun stamina => (blind_mark _).bind fun _ => ?_
  exact (blind_mark _).bind fun _ => blind_pure rfl

theorem blind_trait : Blind id trait trait := by
  refine (blind_choice _ _).bind fun key => (blind_mark _).bind fun _ => ?_
  cases key with
  | damage => exact (blind_number _).bind fun _ => blind_pure rfl
  | cost => exact (blind_number _).bind fun _ => blind_pure rfl
  | height => exact (blind_choice _ _).bind fun _ => blind_pure rfl
  | shape => exact (blind_choice _ _).bind fun _ => blind_pure rfl
  | spinning => exact (blind_choice _ _).bind fun _ => blind_pure rfl

/-- The values of an action do not depend on its span. -/
theorem eraseSpan_foldl_apply (traits : List Trait) (action : Action) :
    (traits.foldl Trait.apply action).eraseSpan = traits.foldl Trait.apply action.eraseSpan := by
  induction traits generalizing action with
  | nil => rfl
  | cons trait traits ih =>
    rw [List.foldl_cons, List.foldl_cons, ih]
    cases trait <;> rfl

/-- A strike keeps the span of its name. -/
theorem blind_strike (kind : ActionKind) :
    Blind Action.eraseSpan (strike kind) (strike kind) := by
  refine (blind_ident _).bind fun name => (blind_mark _).bind fun _ => ?_
  refine (blind_commaSeparated blind_trait).bind fun traits => (blind_mark _).bind fun _ => ?_
  refine blind_pure ?_
  rw [eraseSpan_foldl_apply, List.map_id]
  rfl

/-- The actions of a line keep the spans of their names. -/
theorem blind_action : Blind (List.map Action.eraseSpan) action action := by
  refine (blind_choice _ _).bind fun kind => (blind_mark _).bind fun _ => ?_
  rw [id]
  by_cases hblock : kind = .block
  · simp only [if_pos hblock]
    refine (blind_ident _).bind fun name => ?_
    rw [pure_bind, pure_bind]
    exact (blind_mark _).bind fun _ => blind_pure rfl
  · simp only [if_neg hblock]
    refine (blind_commaSeparated (blind_strike kind)).bind fun actions => ?_
    exact (blind_mark _).bind fun _ => blind_pure rfl

theorem blind_actions : Blind (List.map Action.eraseSpan) actions actions := by
  refine (blind_word _).bind fun _ => (blind_braced blind_action).bind fun lines => ?_
  exact blind_pure List.map_flatten.symm

theorem blind_combo : Blind Combo.eraseSpan combo combo := by
  refine (blind_ident _).bind fun name => (blind_mark _).bind fun _ => ?_
  refine (blind_word _).bind fun _ => (blind_mark _).bind fun _ => ?_
  refine (blind_number _).bind fun cost => (blind_mark _).bind fun _ => ?_
  refine (blind_mark _).bind fun _ => ?_
  have hstep (what : String) : Blind id (Prod.fst <$> ident what) (Prod.fst <$> ident what) :=
    (blind_ident what).map fun _ => rfl
  refine (blind_commaSeparated (hstep _)).bind fun steps => (blind_mark _).bind fun _ => ?_
  rw [List.map_id]
  exact blind_pure rfl

theorem blind_combos : Blind (List.map Combo.eraseSpan) combos combos :=
  (blind_word _).bind fun _ => blind_braced blind_combo

/-- A fighter keeps the spans of its name and of what it declares, and without them the same names
are declared twice. -/
theorem blind_fighter : Blind Fighter.eraseSpans fighter fighter := by
  refine (blind_word _).bind fun _ => (blind_ident _).bind fun name => ?_
  refine (blind_mark _).bind fun _ => blind_stats.bind fun amounts => ?_
  refine blind_actions.bind fun actions => ?_
  have harmed := foldlM_eraseDeclared Fighter.declareAction_eraseSpans actions
    (.bare name.1 amounts.1 amounts.2 name.2)
  refine (blind_consistent harmed).bind fun armed => blind_combos.bind fun combos => ?_
  have hfull := foldlM_eraseDeclared Fighter.declareCombo_eraseSpans combos armed
  exact (blind_consistent hfull).bind fun full => (blind_mark _).bind fun _ => blind_pure rfl

theorem blind_fighters (library : Library) (bound : Nat) :
    Blind Library.eraseSpans (fighters library bound) (fighters library.eraseSpans bound) := by
  induction bound generalizing library with
  | zero => exact blind_pure rfl
  | succ bound ih =>
    refine blind_fighter.bind fun f => ?_
    refine (blind_consistent (Library.declare_eraseSpans library f)).bind fun more => ?_
    exact (blind_peek _).bind fun found => blind_ite (ih more) (blind_pure rfl)

theorem blind_atEnd : Blind id atEnd atEnd := by
  rintro (_ | ⟨token, ts⟩) <;> rfl

/-- A program is read from tokens without their spans as from the tokens with them. -/
theorem blind_program : Blind Program.eraseSpans program program := by
  refine blind_get.bind fun ts => ?_
  rw [List.length_map]
  refine (blind_fighters .empty _).bind fun library => blind_simulation.bind fun parts => ?_
  exact blind_atEnd.bind fun _ => blind_consistent (Program.assemble_eraseSpans library ..)

/-- What is read from tokens of the same kinds is the same up to spans. -/
theorem erased_program_congr {ts ts' : List Token}
    (h : ts'.map Token.kind = ts.map Token.kind) :
    erased Program.eraseSpans (program ts') = erased Program.eraseSpans (program ts) := by
  have hsame : ts'.map Token.eraseSpan = ts.map Token.eraseSpan := by
    have hof (ts : List Token) : ts.map Token.eraseSpan
        = (ts.map Token.kind).map fun kind => ⟨kind, .none⟩ := by
      rw [List.map_map]
      rfl
    rw [hof, hof, h]
  rw [← blind_program ts', ← blind_program ts, hsame]

end Parser

end Lucha
