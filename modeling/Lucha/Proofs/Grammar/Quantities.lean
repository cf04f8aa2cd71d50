import Lucha.Proofs.Grammar.Spans

/-!
# The quantities of a tree

The quantities that a tree holds, from left to right, are what the numerals say among the tokens
that it derives, in the same order (`Tree.Derives.numerals_eq`).
-/

namespace Lucha

open Lucha.Parser (Trait)
open Grammar (Strike ActionLine Definition Tree separated)

variable {α : Type}

/-- The value that a numeral says. -/
def TokenKind.numeral? : TokenKind → Option Nat
  | number value => some value
  | _ => none

/-- The value that a token says if it is a numeral. -/
def Token.numeral? (token : Token) : Option Nat :=
  token.kind.numeral?

/-! ### Quantities -/

/-- The quantity that an attribute sets. -/
def Parser.Trait.quantities : Trait → List Quantity
  | damage amount => [amount]
  | cost amount => [amount]
  | _ => []

/-- The quantities that the instructions of a block compare with. -/
def Block.quantities : Block → List Quantity
  | done => []
  | use _ _ next => next.quantities
  | choose condition yes no next =>
    condition.threshold :: (yes.quantities ++ no.quantities ++ next.quantities)

namespace Grammar

/-- The quantities of a strike. -/
def Strike.quantities (s : Strike) : List Quantity :=
  s.traits.flatMap Trait.quantities

/-- The quantities of a line of actions. -/
def ActionLine.quantities : ActionLine → List Quantity
  | golpe strikes => strikes.flatMap Strike.quantities
  | patada strikes => strikes.flatMap Strike.quantities
  | bloqueo _ _ => []

/-- The quantities of a definition. -/
def Definition.quantities (d : Definition) : List Quantity :=
  d.hp :: d.stamina :: (d.lines.flatMap ActionLine.quantities ++ d.combos.map Combo.cost)

/-- The quantities of a program. -/
def Tree.quantities (t : Tree) : List Quantity :=
  t.definitions.flatMap Definition.quantities
    ++ t.matchup.maxTurns :: t.scripts.flatMap fun s => s.body.quantities

end Grammar

/-! ### Numerals of leaves -/

namespace Leaf

/-- What the numerals among some leaves say. -/
def numerals (leaves : List Leaf) : List Nat :=
  leaves.filterMap fun leaf => leaf.kind.numeral?

@[simp]
theorem numerals_nil : numerals [] = [] := rfl

@[simp]
theorem numerals_append (ls ms : List Leaf) : numerals (ls ++ ms) = numerals ls ++ numerals ms :=
  List.filterMap_append

@[simp]
theorem numerals_word (keyword : Keyword) (ls : List Leaf) :
    numerals (word keyword :: ls) = numerals ls := rfl

@[simp]
theorem numerals_wordAt (keyword : Keyword) (span : Span) (ls : List Leaf) :
    numerals (wordAt keyword span :: ls) = numerals ls := rfl

@[simp]
theorem numerals_mark (symbol : Symbol) (ls : List Leaf) :
    numerals (mark symbol :: ls) = numerals ls := rfl

@[simp]
theorem numerals_ident (name : String) (ls : List Leaf) :
    numerals (ident name :: ls) = numerals ls := rfl

@[simp]
theorem numerals_identAt (name : String) (span : Span) (ls : List Leaf) :
    numerals (identAt name span :: ls) = numerals ls := rfl

@[simp]
theorem numerals_number (value : Quantity) (ls : List Leaf) :
    numerals (number value :: ls) = value.toNat :: numerals ls := rfl

@[simp]
theorem numerals_braced (ls : List Leaf) : numerals (Grammar.braced ls) = numerals ls := by
  simp [Grammar.braced]

variable {leaves : α → List Leaf} {quantities : α → List Quantity}

theorem numerals_flatMap (h : ∀ a, numerals (leaves a) = (quantities a).map UInt32.toNat)
    (items : List α) :
    numerals (items.flatMap leaves) = (items.flatMap quantities).map UInt32.toNat := by
  induction items with
  | nil => rfl
  | cons a items ih => simp [h, ih]

/-- The commas between items are no numerals. -/
theorem numerals_separated (h : ∀ a, numerals (leaves a) = (quantities a).map UInt32.toNat)
    (items : List α) :
    numerals (separated leaves items) = (items.flatMap quantities).map UInt32.toNat := by
  cases items with
  | nil => rfl
  | cons a items =>
    have hcomma (a : α) : numerals (mark .comma :: leaves a) = (quantities a).map UInt32.toNat :=
      h a
    simp [separated, h, numerals_flatMap hcomma]

end Leaf

open Leaf (numerals)

/-! ### Numerals of trees -/

theorem Parser.Trait.numerals_leaves (t : Trait) :
    numerals t.leaves = t.quantities.map UInt32.toNat := by
  cases t <;> rfl

theorem Combo.numerals_leaves (c : Combo) : numerals c.leaves = [c.cost].map UInt32.toNat := by
  have hsteps : numerals (separated (fun step => [Leaf.ident step]) c.steps)
      = (c.steps.flatMap fun _ => []).map UInt32.toNat :=
    Leaf.numerals_separated (fun _ => rfl) c.steps
  simp [Combo.leaves, hsteps]

theorem Condition.numerals_leaves (c : Condition) :
    numerals c.leaves = [c.threshold].map UInt32.toNat := rfl

/-- The numerals of a block are those of its conditions, in the order in which they are written. -/
theorem Block.numerals_leaves (b : Block) :
    numerals b.leaves = b.quantities.map UInt32.toNat := by
  induction b with
  | done => rfl
  | use name span next ih => exact ih
  | choose condition yes no next hyes hno hnext =>
    by_cases hnone : no = .done
    · simp [leaves, quantities, condition.numerals_leaves, hyes, hnext, hnone]
    · simp [leaves, quantities, condition.numerals_leaves, hyes, hno, hnext, hnone]

theorem Matchup.numerals_leaves (m : Matchup) :
    numerals m.leaves = [m.maxTurns].map UInt32.toNat := rfl

theorem Script.numerals_leaves (s : Script) :
    numerals s.leaves = s.body.quantities.map UInt32.toNat := by
  simp [leaves, s.body.numerals_leaves]

namespace Grammar

theorem Strike.numerals_leaves (s : Strike) :
    numerals s.leaves = s.quantities.map UInt32.toNat := by
  simp [leaves, quantities, Leaf.numerals_separated Trait.numerals_leaves]

theorem ActionLine.numerals_leaves (line : ActionLine) :
    numerals line.leaves = line.quantities.map UInt32.toNat := by
  cases line with
  | bloqueo name span => rfl
  | _ strikes => simp [leaves, quantities, Leaf.numerals_separated Strike.numerals_leaves]

theorem Definition.numerals_leaves (d : Definition) :
    numerals d.leaves = d.quantities.map UInt32.toNat := by
  have hlines := Leaf.numerals_flatMap ActionLine.numerals_leaves d.lines
  have hcombos := Leaf.numerals_flatMap Combo.numerals_leaves d.combos
  rw [← List.map_eq_flatMap] at hcombos
  simp [leaves, statsLeaves, quantities, hlines, hcombos]

namespace Tree

theorem numerals_leaves (t : Tree) : numerals t.leaves = t.quantities.map UInt32.toNat := by
  have hdefinitions := Leaf.numerals_flatMap Definition.numerals_leaves t.definitions
  have hscripts := Leaf.numerals_flatMap Script.numerals_leaves t.scripts
  simp [leaves, quantities, hdefinitions, t.matchup.numerals_leaves, hscripts]

/-- The numerals among the tokens that a tree derives say its quantities. -/
theorem Derives.numerals_eq {t : Tree} {ts : List Token} (h : t.Derives ts) :
    ts.filterMap Token.numeral? = t.quantities.map UInt32.toNat := by
  have hkinds : t.leaves.map Leaf.kind = ts.map Token.kind := h.derivesKinds.2
  have hsame : ts.filterMap (fun token => token.kind.numeral?) = numerals t.leaves := by
    simpa only [numerals, List.filterMap_map, Function.comp_def] using
      congrArg (List.filterMap TokenKind.numeral?) hkinds.symm
  exact hsame.trans t.numerals_leaves

end Tree

end Grammar

end Lucha
