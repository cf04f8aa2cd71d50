import Lucha.Parser.Program
import Mathlib.Data.List.Forall2
import Lucha.Proofs.Table

/-!
# Syntax trees

The grammar of fight programs, told by its syntax trees:

    program     := definition+ "simulacion" "{" matchup fight "}"
    definition  := "luchador" ID "{" stats actions combos "}"
    stats       := "stats" "(" "hp" "=" NUM "," "st" "=" NUM ")" ";"
    actions     := "acciones" "{" action+ "}"
    action      := ("golpe" | "patada") ":" strike ("," strike)* ";" | "bloqueo" ":" ID ";"
    strike      := ID "(" attribute ("," attribute)* ")"
    attribute   := "daño" "=" NUM | "costo" "=" NUM | "altura" "=" ("alta" | "media" | "baja")
                 | "forma" "=" ("frontal" | "lateral") | "giratoria" "=" ("si" | "no")
    combos      := "combos" "{" combo+ "}"
    combo       := ID "(" "st_req" "=" NUM ")" "{" ID ("," ID)* "}"
    matchup     := "config" "{" "luchadores" ":" ID "vs" ID ";" "inicia" ":" ID ";"
                   "turnos_max" ":" NUM ";" "}"
    fight       := "pelea" "{" script+ "}"
    script      := "turno" ID "{" instruction+ "}"
    instruction := "usa" ID ";"
                 | "si" "(" condition ")" "{" instruction+ "}" ["sino" "{" instruction+ "}"]
    condition   := ("self" | "oponente") "." ("hp" | "st") RELOP NUM

A tree is a derivation: its leaves from left to right are the tokens it derives (`Tree.leaves`), and
`Tree.Written` says that what comes at least once does, and that conditionals are not nested deeper
than allowed. Numbers are quantities, so a tree has no other. Where a program keeps the span of a
token, so does the tree; all other leaves stand for a token of their kind anywhere.

What a tree means is said apart from how it is read: `Tree.Consistent` is what a program must keep
to beyond the grammar, and `Tree.Denotes` ties a tree to the program it stands for.
-/

namespace Lucha

open Lucha.Parser (Trait nestingLimit)

/-- In lists that correspond, every item of the first has a counterpart in the second. -/
theorem exists_of_mem_left {α β : Type} {R : α → β → Prop} {as : List α} {bs : List β}
    (h : List.Forall₂ R as bs) {a : α} (ha : a ∈ as) : ∃ b ∈ bs, R a b := by
  induction h with
  | nil => cases ha
  | cons hab _ ih =>
    rcases List.mem_cons.mp ha with rfl | ha
    · exact ⟨_, List.mem_cons_self, hab⟩
    · obtain ⟨b, hb, hr⟩ := ih ha
      exact ⟨b, List.mem_cons_of_mem _ hb, hr⟩

/-! ### Leaves -/

/-- One token as a tree knows it: its kind and, where the tree keeps it, its span. -/
structure Leaf where
  kind : TokenKind
  span? : Option Span

namespace Leaf

/-- A reserved word. -/
def word (keyword : Keyword) : Leaf := ⟨.keyword keyword, none⟩

/-- A reserved word whose span is kept. -/
def wordAt (keyword : Keyword) (span : Span) : Leaf := ⟨.keyword keyword, some span⟩

/-- A symbol. -/
def mark (symbol : Symbol) : Leaf := ⟨.symbol symbol, none⟩

/-- An identifier. -/
def ident (name : String) : Leaf := ⟨.ident name, none⟩

/-- An identifier whose span is kept. -/
def identAt (name : String) (span : Span) : Leaf := ⟨.ident name, some span⟩

/-- A numeral. -/
def number (value : Quantity) : Leaf := ⟨.number value.toNat, none⟩

/-- Whether a leaf stands for a token. -/
def Fits (leaf : Leaf) (token : Token) : Prop :=
  token.kind = leaf.kind ∧ ∀ span ∈ leaf.span?, token.span = span

end Leaf

/-- The tokens begin with those of some leaves, and `rest` follows. -/
def Spells : List Leaf → List Token → List Token → Prop
  | [], tokens, rest => tokens = rest
  | leaf :: leaves, tokens, rest =>
    ∃ token tail, tokens = token :: tail ∧ leaf.Fits token ∧ Spells leaves tail rest

namespace Grammar

/-- Items with commas between them. -/
def separated {α : Type} (leaves : α → List Leaf) : List α → List Leaf
  | [] => []
  | first :: more => leaves first ++ more.flatMap fun item => .mark .comma :: leaves item

/-- Leaves between braces. -/
def braced (leaves : List Leaf) : List Leaf :=
  .mark .openBrace :: (leaves ++ [.mark .closeBrace])

/-- One item or more, each with a property. -/
def OneOrMore {α : Type} (P : α → Prop) (items : List α) : Prop :=
  items ≠ [] ∧ ∀ item ∈ items, P item

end Grammar

open Grammar

/-! ### Attributes, strikes and actions -/

/-- The word for a kind of actions. -/
def ActionKind.word : ActionKind → Keyword
  | strike => .golpe
  | kick => .patada
  | block => .bloqueo

/-- The word for a height. -/
def Height.word : Height → Keyword
  | high => .alta
  | mid => .media
  | low => .baja

/-- The word for a shape. -/
def Shape.word : Shape → Keyword
  | frontal => .frontal
  | lateral => .lateral

/-- The word for an answer. -/
def Grammar.answerWord : Bool → Keyword
  | true => .si
  | false => .no

/-- `attribute := KEY "=" VALUE` -/
def Parser.Trait.leaves : Trait → List Leaf
  | damage amount => [.word .dano, .mark .assign, .number amount]
  | cost amount => [.word .costo, .mark .assign, .number amount]
  | height aim => [.word .altura, .mark .assign, .word aim.word]
  | shape path => [.word .forma, .mark .assign, .word path.word]
  | spinning answer => [.word .giratoria, .mark .assign, .word (answerWord answer)]

namespace Parser.Trait

/-- The damage that an attribute sets. -/
def damage? : Trait → Option Quantity
  | damage amount => some amount
  | _ => none

/-- The cost that an attribute sets. -/
def cost? : Trait → Option Quantity
  | cost amount => some amount
  | _ => none

/-- The height that an attribute sets. -/
def height? : Trait → Option Height
  | height aim => some aim
  | _ => none

/-- The shape that an attribute sets. -/
def shape? : Trait → Option Shape
  | shape path => some path
  | _ => none

/-- Whether the action spins, if an attribute says so. -/
def spinning? : Trait → Option Bool
  | spinning answer => some answer
  | _ => none

end Parser.Trait

namespace Grammar

/-- `strike := ID "(" attribute ("," attribute)* ")"` -/
structure Strike where
  name : String
  span : Span
  traits : List Trait

namespace Strike

/-- The tokens of a strike. -/
def leaves (s : Strike) : List Leaf :=
  .identAt s.name s.span :: .mark .openParen :: (separated Trait.leaves s.traits
    ++ [.mark .closeParen])

/-- A strike has an attribute at least. -/
def Written (s : Strike) : Prop := s.traits ≠ []

/-- The value that an attribute sets, the last time it is set. -/
def last? {β : Type} (s : Strike) (pick : Trait → Option β) : Option β :=
  (s.traits.filterMap pick).getLast?

/-- The action that a strike declares: what is not set stays at nothing. -/
def toAction (kind : ActionKind) (s : Strike) : Action where
  kind := kind
  name := s.name
  damage := (s.last? Trait.damage?).getD 0
  cost := (s.last? Trait.cost?).getD 0
  height := s.last? Trait.height?
  shape := s.last? Trait.shape?
  spinning := (s.last? Trait.spinning?).getD false
  span := s.span

end Strike

/-- `action := ("golpe" | "patada") ":" strike ("," strike)* ";" | "bloqueo" ":" ID ";"` -/
inductive ActionLine where
  | golpe (strikes : List Strike)
  | patada (strikes : List Strike)
  | bloqueo (name : String) (span : Span)

namespace ActionLine

/-- The tokens of a line of actions. -/
def leaves : ActionLine → List Leaf
  | golpe strikes =>
    .word .golpe :: .mark .colon :: (separated Strike.leaves strikes ++ [.mark .semicolon])
  | patada strikes =>
    .word .patada :: .mark .colon :: (separated Strike.leaves strikes ++ [.mark .semicolon])
  | bloqueo name span => [.word .bloqueo, .mark .colon, .identAt name span, .mark .semicolon]

/-- A line declares an action at least. -/
def Written : ActionLine → Prop
  | golpe strikes => OneOrMore Strike.Written strikes
  | patada strikes => OneOrMore Strike.Written strikes
  | bloqueo _ _ => True

/-- The actions that a line declares. -/
def actions : ActionLine → List Action
  | golpe strikes => strikes.map (Strike.toAction .strike)
  | patada strikes => strikes.map (Strike.toAction .kick)
  | bloqueo name span => [{ kind := .block, name, span }]

end ActionLine

end Grammar

/-! ### Combos and definitions of fighters -/

/-- `combo := ID "(" "st_req" "=" NUM ")" "{" ID ("," ID)* "}"` -/
def Combo.leaves (c : Combo) : List Leaf :=
  [.identAt c.name c.span, .mark .openParen, .word .stReq, .mark .assign, .number c.cost,
    .mark .closeParen] ++ Grammar.braced (separated (fun step => [.ident step]) c.steps)

/-- A combo has a step at least. -/
def Combo.Written (c : Combo) : Prop := c.steps ≠ []

namespace Grammar

/-- `definition := "luchador" ID "{" stats actions combos "}"` -/
structure Definition where
  name : String
  span : Span
  hp : Quantity
  stamina : Quantity
  lines : List ActionLine
  combos : List Combo

namespace Definition

/-- The tokens of hit points and stamina. -/
def statsLeaves (hp stamina : Quantity) : List Leaf :=
  [.word .stats, .mark .openParen, .word .hp, .mark .assign, .number hp, .mark .comma, .word .st,
    .mark .assign, .number stamina, .mark .closeParen, .mark .semicolon]

/-- The tokens of a definition. -/
def leaves (d : Definition) : List Leaf :=
  .word .luchador :: .identAt d.name d.span :: Grammar.braced (statsLeaves d.hp d.stamina
    ++ .word .acciones :: Grammar.braced (d.lines.flatMap ActionLine.leaves)
    ++ .word .combos :: Grammar.braced (d.combos.flatMap Combo.leaves))

/-- A definition has a line of actions and a combo at least. -/
def Written (d : Definition) : Prop :=
  OneOrMore ActionLine.Written d.lines ∧ OneOrMore Combo.Written d.combos

/-- The actions that a definition declares, in order. -/
def actions (d : Definition) : List Action :=
  d.lines.flatMap ActionLine.actions

/-- The fighter has what the definition says: its values, and each declared action and combo once,
under its name. -/
structure Denotes (d : Definition) (f : Fighter) : Prop where
  name : f.name = d.name
  span : f.span = d.span
  hpMax : f.hpMax = d.hp
  staminaMax : f.staminaMax = d.stamina
  actions : f.actions.Holds Action.name d.actions
  combos : f.combos.Holds Combo.name d.combos

end Definition

end Grammar

/-! ### Conditions, instructions and scripts -/

/-- The word for a subject. -/
def Subject.word : Subject → Keyword
  | actor => .self
  | opponent => .oponente

/-- The word for a quantity of a fighter. -/
def Stat.word : Stat → Keyword
  | hp => .hp
  | stamina => .st

/-- The sign for a comparison. -/
def Comparison.symbol : Comparison → Symbol
  | less => .less
  | greater => .greater
  | atMost => .atMost
  | atLeast => .atLeast
  | equal => .equal
  | unequal => .unequal

/-- `condition := ("self" | "oponente") "." ("hp" | "st") RELOP NUM` -/
def Condition.leaves (c : Condition) : List Leaf :=
  [.word c.subject.word, .mark .dot, .word c.stat.word, .mark c.comparison.symbol,
    .number c.threshold]

namespace Block

/-- `instruction+`, or nothing. -/
def leaves : Block → List Leaf
  | done => []
  | use name span next => .word .usa :: .identAt name span :: .mark .semicolon :: next.leaves
  | choose condition yes no next =>
    .word .si :: .mark .openParen :: (condition.leaves ++ .mark .closeParen ::
      (Grammar.braced yes.leaves
        ++ (if no = done then [] else .word .sino :: Grammar.braced no.leaves) ++ next.leaves))

/-- Between braces stands an instruction at least. -/
def Written : Block → Prop
  | done => True
  | use _ _ next => next.Written
  | choose _ yes no next => yes ≠ done ∧ yes.Written ∧ no.Written ∧ next.Written

/-- How deep the conditionals of a block are nested. -/
def nesting : Block → Nat
  | done => 0
  | use _ _ next => next.nesting
  | choose _ yes no next => max (max yes.nesting no.nesting + 1) next.nesting

end Block

namespace Script

/-- `script := "turno" ID "{" instruction+ "}"` -/
def leaves (s : Script) : List Leaf :=
  .wordAt .turno s.span :: .ident s.fighter :: Grammar.braced s.body.leaves

/-- A script has an instruction at least, and conditionals nested no deeper than allowed. -/
def Written (s : Script) : Prop :=
  s.body ≠ .done ∧ s.body.Written ∧ s.body.nesting ≤ nestingLimit

end Script

/-- `matchup := "config" "{" "luchadores" ":" ID "vs" ID ";" "inicia" ":" ID ";" "turnos_max"
":" NUM ";" "}"` -/
def Matchup.leaves (m : Matchup) : List Leaf :=
  .wordAt .config m.span :: Grammar.braced [.word .luchadores, .mark .colon, .ident m.fighterA,
    .word .vs, .ident m.fighterB, .mark .semicolon, .word .inicia, .mark .colon, .ident m.starter,
    .mark .semicolon, .word .turnosMax, .mark .colon, .number m.maxTurns, .mark .semicolon]

/-! ### Programs -/

namespace Grammar

/-- `program := definition+ "simulacion" "{" matchup "pelea" "{" script+ "}" "}"` -/
structure Tree where
  definitions : List Definition
  matchup : Matchup
  scripts : List Script

namespace Tree

/-- The tokens of a program. -/
def leaves (t : Tree) : List Leaf :=
  t.definitions.flatMap Definition.leaves ++ .word .simulacion :: Grammar.braced (t.matchup.leaves
    ++ .word .pelea :: Grammar.braced (t.scripts.flatMap Script.leaves))

/-- A program has a definition and a script at least. -/
def Written (t : Tree) : Prop :=
  OneOrMore Definition.Written t.definitions ∧ OneOrMore Script.Written t.scripts

/-- The tree derives the tokens. -/
def Derives (t : Tree) (tokens : List Token) : Prop :=
  t.Written ∧ Spells t.leaves tokens []

/-- The names of the fighters that a program declares. -/
def names (t : Tree) : List String :=
  t.definitions.map Definition.name

/-- What a program must keep to beyond the grammar. -/
structure Consistent (t : Tree) : Prop where
  fighters : t.names.Nodup
  actions : ∀ d ∈ t.definitions, (d.actions.map Action.name).Nodup
  combos : ∀ d ∈ t.definitions, (d.combos.map Combo.name).Nodup
  fighterA : t.matchup.fighterA ∈ t.names
  fighterB : t.matchup.fighterB ∈ t.names
  combatants : t.matchup.fighterA ≠ t.matchup.fighterB
  starter : t.matchup.starter = t.matchup.fighterA ∨ t.matchup.starter = t.matchup.fighterB
  maxTurns : 0 < t.matchup.maxTurns

/-- The program has what the tree says: the matchup, the scripts in order, and each declared fighter
once, under its name. -/
structure Denotes (t : Tree) (p : Program) : Prop where
  matchup : p.matchup = t.matchup
  scripts : p.scripts = t.scripts
  fighters : ∃ fs, List.Forall₂ Definition.Denotes t.definitions fs ∧
    p.fighters.Holds Fighter.name fs

end Tree

end Grammar

end Lucha
