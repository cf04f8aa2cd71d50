import Lucha.Program.Basic

/-!
# Warnings

Findings about a program that can be fought all the same: names that are neither an action nor a
combo, scripts that are never followed, combos that hide an action, and combos whose first steps
lead back to themselves.
-/

namespace Lucha

/-- Something odd about a program. -/
inductive Warning where
  /-- A step of a combo is neither an action nor a combo. -/
  | unknownComboStep (fighter combo step : String) (line : Nat)
  /-- A name used in a script is neither an action nor a combo. -/
  | unknownAction (fighter name : String) (line : Nat)
  /-- A script belongs to a fighter that does not fight. -/
  | nonCombatantScript (fighter : String) (line : Nat)
  /-- A later script of the same fighter takes the place of this one. -/
  | shadowedScript (fighter : String) (line : Nat)
  /-- The first steps from a combo on lead back to it. -/
  | fallbackCycle (fighter combo : String) (line : Nat)
  /-- A combo has the name of an action. -/
  | comboShadowsAction (fighter name : String) (line : Nat)
deriving DecidableEq

namespace Warning

/-- The source line a warning points at. -/
def line : Warning → Nat
  | unknownComboStep _ _ _ line => line
  | unknownAction _ _ line => line
  | nonCombatantScript _ line => line
  | shadowedScript _ line => line
  | fallbackCycle _ _ line => line
  | comboShadowsAction _ _ line => line

/-- What is said about a finding, apart from its line. -/
def description : Warning → String
  | unknownComboStep fighter combo step _ =>
    s!"combo '{combo}' of '{fighter}' uses unknown step '{step}'"
  | unknownAction fighter name _ => s!"'{fighter}' has no action or combo named '{name}'"
  | nonCombatantScript fighter _ =>
    s!"turn script for '{fighter}' is never run, it is not one of the combatants"
  | shadowedScript fighter _ => s!"turn script for '{fighter}' is shadowed by a later one"
  | fallbackCycle fighter combo _ => s!"combo '{combo}' of '{fighter}' can fall back into itself"
  | comboShadowsAction fighter name _ =>
    s!"combo '{name}' of '{fighter}' shadows the action of the same name"

/-- What a warning says. -/
def message (w : Warning) : String :=
  s!"line {w.line}: {w.description}"

end Warning

namespace Fighter

/-- The first step of the combo of a name. -/
def firstStep? (f : Fighter) (name : String) : Option String :=
  (f.combos.find? name).bind Combo.firstStep?

/-- The names of the combos that are not yet come to. -/
def unseen (f : Fighter) (seen : List String) : List String :=
  f.combos.names.filter (· ∉ seen)

/-- Coming to a combo for the first time leaves fewer to come to. -/
theorem length_unseen_cons_lt {f : Fighter} {seen : List String} {name : String}
    (hcombo : f.combos.contains name = true) (hnew : name ∉ seen) :
    (f.unseen (name :: seen)).length < (f.unseen seen).length := by
  have hname : name ∈ f.unseen seen :=
    List.mem_filter.mpr ⟨f.combos.mem_names_iff.mpr hcombo, decide_eq_true hnew⟩
  have hrest : f.unseen (name :: seen) = (f.unseen seen).filter (· ≠ name) := by
    simp [unseen, List.filter_filter]
  rw [hrest]
  exact List.length_filter_lt_length_iff_exists.mpr ⟨name, hname, by simp⟩

/-- Whether the first steps from a combo on lead to `goal` before they come to a name that is not
one of a combo or to a combo that is seen already. -/
def leadsBack (f : Fighter) (goal : String) (seen : List String) (current : String) : Bool :=
  match f.firstStep? current with
  | none => false
  | some next =>
    if next = goal then true
    else if f.combos.contains next = true ∧ next ∉ seen then
      f.leadsBack goal (next :: seen) next
    else false
termination_by (f.unseen seen).length
decreasing_by
  rename_i hnew
  exact length_unseen_cons_lt hnew.1 hnew.2

/-- Whether the first steps from a combo on lead back to it. -/
def fallsBackIntoItself (f : Fighter) (combo : String) : Bool :=
  f.leadsBack combo [] combo

/-- The warnings about one combo of a fighter. -/
def comboWarnings (f : Fighter) (combo : Combo) : List Warning :=
  let line := combo.span.line
  let shadows : List Warning :=
    if f.actions.contains combo.name then [.comboShadowsAction f.name combo.name line] else []
  let unknown := combo.steps.filter fun step => !f.knows step
  let cycle : List Warning :=
    if f.fallsBackIntoItself combo.name then [.fallbackCycle f.name combo.name line] else []
  shadows ++ unknown.map (.unknownComboStep f.name combo.name · line) ++ cycle

/-- The warnings about the combos of a fighter. -/
def warnings (f : Fighter) : List Warning :=
  f.combos.values.flatMap f.comboWarnings

end Fighter

namespace Program

/-- The warnings about a script that `later` scripts follow. -/
def scriptWarnings (p : Program) (script : Script) (later : List Script) : List Warning :=
  let line := script.span.line
  if script.fighter ≠ p.matchup.fighterA ∧ script.fighter ≠ p.matchup.fighterB then
    [.nonCombatantScript script.fighter line]
  else if later.any (·.fighter = script.fighter) then
    [.shadowedScript script.fighter line]
  else
    match p.fighters.find? script.fighter with
    | none => []
    | some f =>
      (script.body.uses.filter fun use => !f.knows use.1).map fun use =>
        .unknownAction f.name use.1 use.2.line

/-- The warnings about some scripts, the last of which no script follows. -/
def scriptsWarnings (p : Program) : List Script → List Warning
  | [] => []
  | script :: later => p.scriptWarnings script later ++ p.scriptsWarnings later

/-- The warnings about a program: first fighter by fighter, then script by script. -/
def warnings (p : Program) : List Warning :=
  p.fighters.values.flatMap Fighter.warnings ++ p.scriptsWarnings p.scripts

end Program

end Lucha
