import Lucha.Program.Basic

/-!
# Programs as text

The canonical text of a program: fighters, actions and combos in the order of their names, one to a
line, every value written out, and blocks indented. The text is made of lines that know their level,
so the width of a level is chosen only at the end.
-/

namespace Lucha

/-- A line of text, indented by some levels. -/
structure Line where
  level : Nat
  text : String
deriving DecidableEq

/-- A line with `width` spaces for each level, and its end. -/
def Line.render (width : Nat) (line : Line) : String :=
  String.ofList (List.replicate (line.level * width) ' ') ++ line.text ++ "\n"

/-- Lines between a header with an opening brace and a closing brace. -/
def Line.braced (level : Nat) (header : String) (body : List Line) : List Line :=
  ⟨level, header ++ " \x7b"⟩ :: (body ++ [⟨level, "\x7d"⟩])

/-- An action as it is written. A block has no values. -/
def Action.text (a : Action) : String :=
  if a.isBlock then s!"bloqueo: {a.name};"
  else
    let values :=
      [s!"daño={a.damage}", s!"costo={a.cost}"]
        ++ (a.height.map fun height => "altura=" ++ height.keyword).toList
        ++ (a.shape.map fun shape => "forma=" ++ shape.keyword).toList
        ++ (if a.spinning then ["giratoria=si"] else [])
    s!"{a.kind.keyword}: {a.name}(" ++ ", ".intercalate values ++ ");"

/-- A combo as it is written. -/
def Combo.text (c : Combo) : String :=
  s!"{c.name}(st_req={c.cost}) \x7b " ++ ", ".intercalate c.steps ++ " \x7d"

/-- The lines of a fighter. -/
def Fighter.lines (f : Fighter) : List Line :=
  Line.braced 0 ("luchador " ++ f.name) <|
    [⟨1, s!"stats(hp={f.hpMax}, st={f.staminaMax});"⟩]
      ++ Line.braced 1 "acciones" (f.actions.values.map fun a => ⟨2, a.text⟩)
      ++ Line.braced 1 "combos" (f.combos.values.map fun c => ⟨2, c.text⟩)

/-- The lines of a block at a level. An empty block after the condition fails is left out. -/
def Block.lines (level : Nat) : Block → List Line
  | done => []
  | use name _ next => ⟨level, s!"usa {name};"⟩ :: next.lines level
  | choose condition yes no next =>
    let otherwise : List Line :=
      if no = done then [] else ⟨level, "\x7d sino \x7b"⟩ :: no.lines (level + 1)
    Line.braced level s!"si ({condition.text})" (yes.lines (level + 1) ++ otherwise)
      ++ next.lines level

/-- The lines of a matchup. -/
def Matchup.lines (m : Matchup) : List Line :=
  Line.braced 1 "config" [
    ⟨2, s!"luchadores: {m.fighterA} vs {m.fighterB};"⟩,
    ⟨2, s!"inicia: {m.starter};"⟩,
    ⟨2, s!"turnos_max: {m.maxTurns};"⟩]

/-- The lines of a script. -/
def Script.lines (s : Script) : List Line :=
  Line.braced 2 ("turno " ++ s.fighter) (s.body.lines 3)

namespace Program

/-- The lines of a program; an empty line follows each fighter. -/
def lines (p : Program) : List Line :=
  (p.fighters.values.flatMap fun f => f.lines ++ [⟨0, ""⟩])
    ++ Line.braced 0 "simulacion" (p.matchup.lines
      ++ Line.braced 1 "pelea" (p.scripts.flatMap Script.lines))

/-- The text of a program with `width` spaces for each level. -/
def render (p : Program) (width : Nat := 2) : String :=
  String.join (p.lines.map (Line.render width))

end Program

end Lucha
