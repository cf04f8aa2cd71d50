import Lucha.Program.Printer
import Lucha.Proofs.Program.Printable

/-!
# The tree of a printable program

A printable program has a tree (`Program.tree`): a line for each action, with its values in the
order in which they are written, and everything in the order of the names. The grammar derives it
(`Program.Printable.written_tree`), and it denotes the program it was made from
(`Program.Printable.denotes_tree`).
-/

namespace Lucha

open Grammar (ActionLine Definition OneOrMore Strike Tree)
open Lucha.Parser (Trait)

/-- The strike that declares an action: damage and cost always, the other values where they are
set. -/
def Action.strike (a : Action) : Strike where
  name := a.name
  span := a.span
  traits := [.damage a.damage, .cost a.cost] ++ (a.height.map Trait.height).toList
    ++ (a.shape.map Trait.shape).toList ++ (if a.spinning then [.spinning true] else [])

/-- The line that declares an action. -/
def Action.line (a : Action) : ActionLine :=
  match a.kind with
  | .strike => .golpe [a.strike]
  | .kick => .patada [a.strike]
  | .block => .bloqueo a.name a.span

/-- The definition of a fighter, with its actions and combos in the order of their names. -/
def Fighter.definition (f : Fighter) : Definition where
  name := f.name
  span := f.span
  hp := f.hpMax
  stamina := f.staminaMax
  lines := f.actions.values.map Action.line
  combos := f.combos.values

/-- The tree of a program, with its fighters in the order of their names. -/
def Program.tree (p : Program) : Tree where
  definitions := p.fighters.values.map Fighter.definition
  matchup := p.matchup
  scripts := p.scripts

theorem Action.toAction_strike (a : Action) : a.strike.toAction a.kind = a := by
  obtain ⟨kind, name, damage, cost, height, shape, spinning, span⟩ := a
  cases height <;> cases shape <;> cases spinning <;> rfl

/-- The line of a printable action declares that action. -/
theorem Action.Printable.actions_line {a : Action} (h : a.Printable) : a.line.actions = [a] := by
  have hstrike := a.toAction_strike
  rw [line]
  cases hkind : a.kind with
  | strike => rw [hkind] at hstrike; exact congrArg ([·]) hstrike
  | kick => rw [hkind] at hstrike; exact congrArg ([·]) hstrike
  | block =>
    obtain ⟨hdamage, hcost, hheight, hshape, hspinning⟩ := h.block hkind
    cases a
    simp_all [ActionLine.actions]

theorem Action.written_line (a : Action) : a.line.Written := by
  have htraits : a.strike.Written := List.cons_ne_nil _ _
  rw [line]
  cases a.kind with
  | block => trivial
  | _ => exact ⟨List.cons_ne_nil _ _, by simpa using htraits⟩

theorem Fighter.Printable.actions_definition {f : Fighter} (h : f.Printable) :
    f.definition.actions = f.actions.values := by
  have hlines : ∀ a ∈ f.actions.values, a.line.actions = [a] := fun a ha =>
    (h.actions.2 a ha).actions_line
  rw [definition, Definition.actions, List.flatMap_map, List.flatMap_congr hlines,
    List.flatMap_singleton']

/-- The definition of a printable fighter is written out: it has an action and a combo, and each
combo has a step. -/
theorem Fighter.Printable.written_definition {f : Fighter} (h : f.Printable) :
    f.definition.Written := by
  refine ⟨⟨?_, ?_⟩, ?_⟩
  · exact fun hnil => h.actions.1 (List.map_eq_nil_iff.mp hnil)
  · intro line hline
    obtain ⟨a, -, rfl⟩ := List.mem_map.mp hline
    exact a.written_line
  · exact ⟨h.combos.1, fun c hc => (h.combos.2 c hc).written⟩

/-- The definition of a printable fighter denotes the fighter. -/
theorem Fighter.Printable.denotes_definition {f : Fighter} (h : f.Printable) :
    f.definition.Denotes f where
  name := rfl
  span := rfl
  hpMax := rfl
  staminaMax := rfl
  actions := h.actions_definition ▸ h.keyed.actions.holds_values
  combos := h.keyed.combos.holds_values

namespace Program.Printable

variable {p : Program}

theorem sound (h : p.Printable) : p.Sound :=
  inconsistency?_eq_none_iff.mp h.fightable

/-- The tree of a printable program is written out. -/
theorem written_tree (h : p.Printable) : p.tree.Written := by
  obtain ⟨f, hf⟩ := p.fighters.contains_eq_true_iff.mp h.sound.fighterA
  have hmem : f ∈ p.fighters.values :=
    List.mem_map_of_mem (f := Prod.snd) (p.fighters.find?_eq_some_iff_mem.mp hf)
  refine ⟨⟨fun hnil => ?_, fun d hd => ?_⟩, h.scripts.1, fun s hs => (h.scripts.2 s hs).written⟩
  · exact List.ne_nil_of_mem hmem (List.map_eq_nil_iff.mp hnil)
  · obtain ⟨f, hf, rfl⟩ := List.mem_map.mp hd
    exact (h.fighters f hf).written_definition

/-- The tree of a printable program denotes the program. -/
theorem denotes_tree (h : p.Printable) : p.tree.Denotes p where
  matchup := rfl
  scripts := rfl
  fighters := by
    refine ⟨p.fighters.values, ?_, h.keys.holds_values⟩
    rw [tree, List.forall₂_map_left_iff, List.forall₂_same]
    exact fun f hf => (h.fighters f hf).denotes_definition

end Program.Printable

end Lucha
