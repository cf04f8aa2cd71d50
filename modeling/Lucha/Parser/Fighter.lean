import Lucha.Parser.Basic
import Lucha.Program.Assembly

/-!
# Reading fighters

    fighter    := "luchador" ID "{" stats actions combos "}"
    stats      := "stats" "(" "hp" "=" NUM "," "st" "=" NUM ")" ";"
    actions    := "acciones" "{" action+ "}"
    action     := ("golpe" | "patada") ":" strike ("," strike)* ";" | "bloqueo" ":" ID ";"
    strike     := ID "(" attribute ("," attribute)* ")"
    combos     := "combos" "{" combo+ "}"
    combo      := ID "(" "st_req" "=" NUM ")" "{" ID ("," ID)* "}"

Actions are declared when the block that holds them is complete, and so are combos, so a name
that is declared twice is found only there.
-/

namespace Lucha.Parser

/-- One value written between the parentheses of a strike. -/
inductive Trait where
  | damage (amount : Quantity)
  | cost (amount : Quantity)
  | height (aim : Height)
  | shape (path : Shape)
  | spinning (answer : Bool)
deriving DecidableEq

/-- An action with one of its values set. -/
def Trait.apply (action : Action) : Trait → Action
  | damage amount => { action with damage := amount }
  | cost amount => { action with cost := amount }
  | height aim => { action with height := some aim }
  | shape path => { action with shape := some path }
  | spinning answer => { action with spinning := answer }

/-- `stats := "stats" "(" "hp" "=" NUM "," "st" "=" NUM ")" ";"` -/
def stats : Parser (Quantity × Quantity) := do
  let _ ← word .stats
  let _ ← mark .openParen
  let _ ← word .hp
  let _ ← mark .assign
  let hp ← number "hit points"
  let _ ← mark .comma
  let _ ← word .st
  let _ ← mark .assign
  let stamina ← number "stamina"
  let _ ← mark .closeParen
  let _ ← mark .semicolon
  return (hp, stamina)

/-- The words that a strike's values are set with. -/
inductive TraitKey where
  | damage | cost | height | shape | spinning
deriving DecidableEq

/-- The value that a word sets. -/
def TraitKey.ofKeyword? : Keyword → Option TraitKey
  | .dano => some damage
  | .costo => some cost
  | .altura => some height
  | .forma => some shape
  | .giratoria => some spinning
  | _ => none

/-- The height that a word names. -/
def heightOf? : Keyword → Option Height
  | .alta => some .high
  | .media => some .mid
  | .baja => some .low
  | _ => none

/-- The shape that a word names. -/
def shapeOf? : Keyword → Option Shape
  | .frontal => some .frontal
  | .lateral => some .lateral
  | _ => none

/-- The answer that a word gives. -/
def answerOf? : Keyword → Option Bool
  | .si => some true
  | .no => some false
  | _ => none

/-- `attribute := KEY "=" VALUE` -/
def trait : Parser Trait := do
  let key ← choice "strike attribute ('daño', 'costo', 'altura', 'forma' or 'giratoria')"
    TraitKey.ofKeyword?
  let _ ← mark .assign
  match key with
  | .damage => return .damage (← number "integer value")
  | .cost => return .cost (← number "integer value")
  | .height => return .height (← choice "'alta', 'media' or 'baja'" heightOf?)
  | .shape => return .shape (← choice "'frontal' or 'lateral'" shapeOf?)
  | .spinning => return .spinning (← choice "'si' or 'no'" answerOf?)

/-- `strike := ID "(" attribute ("," attribute)* ")"` -/
def strike (kind : ActionKind) : Parser Action := do
  let (name, span) ← ident "strike name"
  let _ ← mark .openParen
  let traits ← commaSeparated trait
  let _ ← mark .closeParen
  return traits.foldl Trait.apply { kind, name, span }

/-- The kind of action that a word declares. -/
def actionKindOf? : Keyword → Option ActionKind
  | .golpe => some .strike
  | .patada => some .kick
  | .bloqueo => some .block
  | _ => none

/-- `action := ("golpe" | "patada") ":" strike ("," strike)* ";" | "bloqueo" ":" ID ";"` -/
def action : Parser (List Action) := do
  let kind ← choice "'golpe', 'patada' or 'bloqueo'" actionKindOf?
  let _ ← mark .colon
  let actions ←
    if kind = .block then do
      let (name, span) ← ident "block name"
      pure [{ kind, name, span }]
    else commaSeparated (strike kind)
  let _ ← mark .semicolon
  return actions

/-- `actions := "acciones" "{" action+ "}"` -/
def actions : Parser (List Action) := do
  let _ ← word .acciones
  return (← braced action).flatten

/-- `combo := ID "(" "st_req" "=" NUM ")" "{" ID ("," ID)* "}"` -/
def combo : Parser Combo := do
  let (name, span) ← ident "combo name"
  let _ ← mark .openParen
  let _ ← word .stReq
  let _ ← mark .assign
  let cost ← number "stamina requirement"
  let _ ← mark .closeParen
  let _ ← mark .openBrace
  let steps ← commaSeparated (Prod.fst <$> ident "action name")
  let _ ← mark .closeBrace
  return { name, cost, steps, span }

/-- `combos := "combos" "{" combo+ "}"` -/
def combos : Parser (List Combo) := do
  let _ ← word .combos
  braced combo

/-- `fighter := "luchador" ID "{" stats actions combos "}"` -/
def fighter : Parser Fighter := do
  let _ ← word .luchador
  let (name, span) ← ident "fighter name"
  let _ ← mark .openBrace
  let (hp, stamina) ← stats
  let bare := Fighter.bare name hp stamina span
  let armed ← consistent ((← actions).foldlM Fighter.declareAction bare)
  let full ← consistent ((← combos).foldlM Fighter.declareCombo armed)
  let _ ← mark .closeBrace
  return full

end Lucha.Parser
