import Lucha.Proofs.Assembly

/-!
# Programs without their spans

A program remembers where its parts stand in the source text. `Program.eraseSpans` forgets that, so
two programs are the same up to spans when they are the same after it. Declarations look at spans
only for the lines of what is inconsistent, so what is made of parts without their spans is made of
the parts and then forgets the spans (`Program.assemble_eraseSpans`).
-/

namespace Lucha

/-- An action in no source text. -/
def Action.eraseSpan (a : Action) : Action := { a with span := .none }

/-- A combo in no source text. -/
def Combo.eraseSpan (c : Combo) : Combo := { c with span := .none }

/-- A fighter in no source text. -/
def Fighter.eraseSpans (f : Fighter) : Fighter :=
  { f with
    actions := f.actions.map Action.eraseSpan
    combos := f.combos.map Combo.eraseSpan
    span := .none }

namespace Block

/-- Instructions in no source text. -/
def eraseSpans : Block → Block
  | done => done
  | use name _ next => use name .none next.eraseSpans
  | choose condition yes no next =>
    choose condition yes.eraseSpans no.eraseSpans next.eraseSpans

@[simp]
theorem eraseSpans_eq_done_iff {b : Block} : b.eraseSpans = done ↔ b = done := by
  cases b <;> simp [eraseSpans]

end Block

/-- A script in no source text. -/
def Script.eraseSpans (s : Script) : Script :=
  { s with body := s.body.eraseSpans, span := .none }

/-- A matchup in no source text. -/
def Matchup.eraseSpan (m : Matchup) : Matchup := { m with span := .none }

/-- A program in no source text. -/
def Program.eraseSpans (p : Program) : Program where
  fighters := p.fighters.map Fighter.eraseSpans
  matchup := p.matchup.eraseSpan
  scripts := p.scripts.map Script.eraseSpans

/-! ### Declarations -/

/-- A fault of a program in no source text. -/
def SemanticFault.eraseLine : SemanticFault → SemanticFault
  | actionTwice fighter action _ => actionTwice fighter action 0
  | comboTwice fighter combo _ => comboTwice fighter combo 0
  | fighterTwice fighter _ => fighterTwice fighter 0
  | fault => fault

/-- An inconsistency of a program in no source text. -/
def Inconsistency.eraseLines (i : Inconsistency) : Inconsistency :=
  ⟨i.fault.eraseLine, 0⟩

/-- What is declared in no source text, if `erase` takes the spans from it. -/
def eraseDeclared {σ : Type} (erase : σ → σ) : Except Inconsistency σ → Except Inconsistency σ
  | .ok made => .ok (erase made)
  | .error i => .error i.eraseLines

/-- Declarations one after the other come out without spans as with them if each one does. -/
theorem foldlM_eraseDeclared {σ α : Type} {declare : σ → α → Except Inconsistency σ}
    {erase : σ → σ} {eraseItem : α → α}
    (h : ∀ s item, declare (erase s) (eraseItem item) = eraseDeclared erase (declare s item))
    (items : List α) (s : σ) :
    (items.map eraseItem).foldlM declare (erase s)
      = eraseDeclared erase (items.foldlM declare s) := by
  induction items generalizing s with
  | nil => rfl
  | cons item items ih =>
    rw [List.map_cons, List.foldlM_cons, List.foldlM_cons, h]
    cases declare s item with
    | ok made => exact ih made
    | error i => rfl

/-- What is built with an item without its spans is what is built with the item, without its
spans. -/
theorem Builder.built_add_erase {σ α : Type} {table : σ → Table α} {put : σ → Table α → σ}
    {key : α → String} {refusal : σ → α → α → Inconsistency} {erase : σ → σ} {eraseItem : α → α}
    (htable : ∀ s, table (erase s) = (table s).map eraseItem)
    (hput : ∀ s t, erase (put s t) = put (erase s) (t.map eraseItem))
    (hkey : ∀ item, key (eraseItem item) = key item)
    (hrefusal : ∀ s first item,
      refusal (erase s) (eraseItem first) (eraseItem item) = (refusal s first item).eraseLines)
    (s : σ) (item : α) :
    (add table put key refusal (eraseItem item)).built (erase s)
      = eraseDeclared erase ((add table put key refusal item).built s) := by
  rw [built_add, built_add, htable, hkey, Table.find?_map]
  cases (table s).find? (key item) with
  | some first => exact congrArg Except.error (hrefusal s first item)
  | none =>
    refine congrArg Except.ok ?_
    rw [hput, Table.map_insert]

/-- A fighter and an action without their spans make what they make, without its spans. -/
theorem Fighter.declareAction_eraseSpans (f : Fighter) (action : Action) :
    f.eraseSpans.declareAction action.eraseSpan
      = eraseDeclared Fighter.eraseSpans (f.declareAction action) := by
  unfold declareAction addAction
  refine Builder.built_add_erase ?_ ?_ ?_ ?_ f action <;> intros <;> rfl

/-- A fighter and a combo without their spans make what they make, without its spans. -/
theorem Fighter.declareCombo_eraseSpans (f : Fighter) (combo : Combo) :
    f.eraseSpans.declareCombo combo.eraseSpan
      = eraseDeclared Fighter.eraseSpans (f.declareCombo combo) := by
  unfold declareCombo addCombo
  refine Builder.built_add_erase ?_ ?_ ?_ ?_ f combo <;> intros <;> rfl

/-- A library in no source text. -/
def Library.eraseSpans (library : Library) : Library :=
  library.map Fighter.eraseSpans

/-- A library and a fighter without their spans make what they make, without its spans. -/
theorem Library.declare_eraseSpans (library : Library) (f : Fighter) :
    library.eraseSpans.declare f.eraseSpans
      = eraseDeclared Library.eraseSpans (library.declare f) := by
  unfold declare add
  refine Builder.built_add_erase ?_ ?_ ?_ ?_ library f <;> intros <;> rfl

namespace Program

/-- The check of a program without spans finds the same, but names no lines. -/
theorem inconsistency?_eraseSpans (p : Program) :
    p.eraseSpans.inconsistency? = p.inconsistency?.map Inconsistency.eraseLines := by
  obtain ⟨fighters, ⟨a, b, starter, turns, span⟩, scripts⟩ := p
  change inconsistency? ⟨fighters.map Fighter.eraseSpans, ⟨a, b, starter, turns, .none⟩, _⟩ = _
  simp only [inconsistency?, Table.contains_map, apply_ite (Option.map _), Option.map_some,
    Option.map_none]
  rfl

/-- What parts without their spans make is what the parts make, without its spans. -/
theorem assemble_eraseSpans (fighters : Library) (matchup : Matchup) (scripts : List Script) :
    assemble fighters.eraseSpans matchup.eraseSpan (scripts.map Script.eraseSpans)
      = eraseDeclared Program.eraseSpans (assemble fighters matchup scripts) := by
  have hfault : inconsistency? ⟨fighters.eraseSpans, matchup.eraseSpan, _⟩ = _ :=
    inconsistency?_eraseSpans ⟨fighters, matchup, scripts⟩
  simp only [assemble, hfault]
  cases inconsistency? ⟨fighters, matchup, scripts⟩ <;> rfl

end Program

end Lucha
