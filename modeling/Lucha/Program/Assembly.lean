import Lucha.Error
import Lucha.Program.Basic

/-!
# Putting programs together

Declarations are added one at a time: actions and combos to a fighter, fighters to a library, and at
last a library, a matchup and scripts make a program. A name that is taken is refused with the lines
of both declarations, and `Program.inconsistency?` says what keeps a program from being fought.

What is being built is changed by calls (`Builder`). A call that is refused leaves it as well, so a
caller may go on with what is left; the reader of programs gives up instead (`Builder.built`).
-/

namespace Lucha

/-- Calls on what is being built. A call is accepted or refused, and either way something is left. -/
abbrev Builder (σ : Type) : Type → Type :=
  ExceptT Inconsistency (StateM σ)

namespace Builder

variable {σ α : Type}

/-- Whether a call is accepted, and why not. -/
def answer (call : Builder σ Unit) (s : σ) : Except Inconsistency Unit :=
  (call.run.run s).1

/-- What a call leaves. -/
def left (call : Builder σ Unit) (s : σ) : σ :=
  (call.run.run s).2

/-- What a call leaves if it is accepted. -/
def built (call : Builder σ Unit) (s : σ) : Except Inconsistency σ :=
  (call.answer s).map fun _ => call.left s

/-- Adds an item to a table of what is being built, unless the table has its name. -/
def add (table : σ → Table α) (put : σ → Table α → σ) (key : α → String)
    (refusal : σ → α → α → Inconsistency) (item : α) : Builder σ Unit := do
  let s ← get
  match (table s).find? (key item) with
  | some first => throw (refusal s first item)
  | none => set (put s ((table s).insert (key item) item))

end Builder

namespace Fighter

/-- A fighter without actions and combos. -/
def bare (name : String) (hpMax staminaMax : Quantity) (span : Span) : Fighter :=
  ⟨name, hpMax, staminaMax, .empty, .empty, span⟩

/-- Adds an action to a fighter. -/
def addAction : Action → Builder Fighter Unit :=
  Builder.add actions (fun f actions => { f with actions }) Action.name fun f first action =>
    ⟨.actionTwice f.name action.name first.span.line, action.span.line⟩

/-- Adds a combo to a fighter. -/
def addCombo : Combo → Builder Fighter Unit :=
  Builder.add combos (fun f combos => { f with combos }) Combo.name fun f first combo =>
    ⟨.comboTwice f.name combo.name first.span.line, combo.span.line⟩

/-- The fighter with one more action, unless it has one of that name. -/
def declareAction (f : Fighter) (action : Action) : Except Inconsistency Fighter :=
  (addAction action).built f

/-- The fighter with one more combo, unless it has one of that name. -/
def declareCombo (f : Fighter) (combo : Combo) : Except Inconsistency Fighter :=
  (addCombo combo).built f

end Fighter

/-- Fighters under their names. -/
abbrev Library := Table Fighter

namespace Library

/-- Adds a fighter to a library. -/
def add : Fighter → Builder Library Unit :=
  Builder.add id (fun _ table => table) Fighter.name fun _ first f =>
    ⟨.fighterTwice f.name first.span.line, f.span.line⟩

/-- The library with one more fighter, unless it has one of that name. -/
def declare (library : Library) (f : Fighter) : Except Inconsistency Library :=
  (add f).built library

end Library

namespace Program

/-- What keeps a program from being fought, if anything: a combatant that is not declared,
combatants that are the same, a starter that is no combatant, or no rounds to fight. The first
of these counts. -/
def inconsistency? (p : Program) : Option Inconsistency :=
  let m := p.matchup
  let fault? : Option SemanticFault :=
    if p.fighters.contains m.fighterA = false then some (.undeclaredCombatant m.fighterA)
    else if p.fighters.contains m.fighterB = false then some (.undeclaredCombatant m.fighterB)
    else if m.fighterA = m.fighterB then some (.selfFight m.fighterA)
    else if m.starter ≠ m.fighterA ∧ m.starter ≠ m.fighterB then
      some (.foreignStarter m.starter m.fighterA m.fighterB)
    else if m.maxTurns = 0 then some .noTurns
    else none
  fault?.map (⟨·, m.span.line⟩)

/-- The program of a library, a matchup and scripts, unless it cannot be fought. -/
def assemble (fighters : Library) (matchup : Matchup) (scripts : List Script) :
    Except Inconsistency Program :=
  let program : Program := ⟨fighters, matchup, scripts⟩
  match program.inconsistency? with
  | some inconsistency => .error inconsistency
  | none => .ok program

end Program

end Lucha
