import Lucha.Program.Assembly
import Lucha.Proofs.Table

/-!
# When declarations are accepted

An item is refused exactly if its table has the name, and then nothing is changed
(`Builder.run_add`). So a run of declarations is accepted if and only if their names are new and
distinct, and then it adds what was declared to the table it belongs to. A program is assembled if and only if nothing keeps it
from being fought (`Program.Sound`).
-/

namespace Lucha

namespace Builder

variable {σ α : Type} {table : σ → Table α} {put : σ → Table α → σ} {key : α → String}
  {refusal : σ → α → α → Inconsistency} {item : α} {s s' : σ} {e : Inconsistency}

/-- An item whose name is taken is refused and changes nothing, and any other is put under its
name. -/
theorem run_add : (add table put key refusal item).run.run s =
    match (table s).find? (key item) with
    | some first => (.error (refusal s first item), s)
    | none => (.ok (), put s ((table s).insert (key item) item)) := by
  have hget : (add table put key refusal item).run.run s =
      (match (table s).find? (key item) with
        | some first => (throw (refusal s first item) : Builder σ Unit)
        | none => set (put s ((table s).insert (key item) item))).run.run s := rfl
  rw [hget]
  cases (table s).find? (key item) <;> rfl

/-- What is left with an item is all as before, or has the item under its name. -/
theorem left_add : (add table put key refusal item).left s =
    match (table s).find? (key item) with
    | some _ => s
    | none => put s ((table s).insert (key item) item) := by
  rw [left, run_add]
  cases (table s).find? (key item) <;> rfl

/-- An item is built in, or it is refused. -/
theorem built_add : (add table put key refusal item).built s =
    match (table s).find? (key item) with
    | some first => .error (refusal s first item)
    | none => .ok (put s ((table s).insert (key item) item)) := by
  rw [built, answer, left, run_add]
  cases (table s).find? (key item) <;> rfl

/-- Nothing is built exactly if the item is refused. -/
theorem built_add_eq_error_iff : (add table put key refusal item).built s = .error e ↔
    ∃ first, (table s).find? (key item) = some first ∧ refusal s first item = e := by
  rw [built_add]
  cases (table s).find? (key item) <;> simp

/-- An item is built in exactly if its name is new. -/
theorem built_add_eq_ok_iff : (add table put key refusal item).built s = .ok s' ↔
    (table s).find? (key item) = none ∧ put s ((table s).insert (key item) item) = s' := by
  rw [built_add]
  cases (table s).find? (key item) <;> simp

end Builder

/-- Actions are built in one after the other exactly if their names are new and differ. -/
theorem Fighter.declareActions_eq_ok_iff {actions : List Action} {f g : Fighter} :
    actions.foldlM declareAction f = .ok g ↔
      ((actions.map Action.name).Nodup ∧ ∀ a ∈ actions, f.actions.find? a.name = none) ∧
        { f with actions := f.actions.insertAll Action.name actions } = g :=
  declareAll_eq_ok_iff Fighter.actions (fun f actions => { f with actions })
    (fun _ _ _ => Builder.built_add_eq_ok_iff) (fun _ _ => rfl) (fun _ _ _ => rfl) (fun _ => rfl)

/-- Combos are built in one after the other exactly if their names are new and differ. -/
theorem Fighter.declareCombos_eq_ok_iff {combos : List Combo} {f g : Fighter} :
    combos.foldlM declareCombo f = .ok g ↔
      ((combos.map Combo.name).Nodup ∧ ∀ c ∈ combos, f.combos.find? c.name = none) ∧
        { f with combos := f.combos.insertAll Combo.name combos } = g :=
  declareAll_eq_ok_iff Fighter.combos (fun f combos => { f with combos })
    (fun _ _ _ => Builder.built_add_eq_ok_iff) (fun _ _ => rfl) (fun _ _ _ => rfl) (fun _ => rfl)

/-- Fighters are built in one after the other exactly if their names are new and differ. -/
theorem Library.declareAll_eq_ok_iff {fighters : List Fighter} {library library' : Library} :
    fighters.foldlM Library.declare library = .ok library' ↔
      ((fighters.map Fighter.name).Nodup ∧ ∀ f ∈ fighters, library.find? f.name = none) ∧
        library.insertAll Fighter.name fighters = library' :=
  Lucha.declareAll_eq_ok_iff id (fun _ table => table)
    (fun _ _ _ => Builder.built_add_eq_ok_iff) (fun _ _ => rfl) (fun _ _ _ => rfl) (fun _ => rfl)

/-- The actions and combos of a fighter stand under their own names. -/
structure Fighter.Keyed (f : Fighter) : Prop where
  actions : f.actions.Keyed Action.name
  combos : f.combos.Keyed Combo.name

instance (f : Fighter) : Decidable f.Keyed :=
  decidable_of_iff (f.actions.Keyed Action.name ∧ f.combos.Keyed Combo.name)
    ⟨fun h => ⟨h.1, h.2⟩, fun h => ⟨h.actions, h.combos⟩⟩

namespace Program

/-- Everything in a program stands under its own name. -/
structure Keyed (p : Program) : Prop where
  fighters : p.fighters.Keyed Fighter.name
  declared : ∀ f ∈ p.fighters.values, f.Keyed

instance (p : Program) : Decidable p.Keyed :=
  decidable_of_iff (p.fighters.Keyed Fighter.name ∧ ∀ f ∈ p.fighters.values, f.Keyed)
    ⟨fun h => ⟨h.1, h.2⟩, fun h => ⟨h.fighters, h.declared⟩⟩

/-- The combatants are declared and differ, one of them starts, and there are rounds to fight. -/
structure Sound (p : Program) : Prop where
  fighterA : p.fighters.contains p.matchup.fighterA = true
  fighterB : p.fighters.contains p.matchup.fighterB = true
  combatants : p.matchup.fighterA ≠ p.matchup.fighterB
  starter : p.matchup.starter = p.matchup.fighterA ∨ p.matchup.starter = p.matchup.fighterB
  maxTurns : 0 < p.matchup.maxTurns

/-- The combatants of a sound program are declared. -/
theorem Sound.exists_fighter {p : Program} (h : p.Sound) {name : String}
    (hname : name ∈ [p.matchup.fighterA, p.matchup.fighterB]) :
    ∃ f, p.fighters.find? name = some f := by
  rw [← Table.contains_eq_true_iff]
  obtain rfl | rfl : name = p.matchup.fighterA ∨ name = p.matchup.fighterB := by
    simpa using hname
  · exact h.fighterA
  · exact h.fighterB

/-- The check finds nothing to refuse exactly in the sound programs. -/
theorem inconsistency?_eq_none_iff {p : Program} : p.inconsistency? = none ↔ p.Sound := by
  rw [inconsistency?, Option.map_eq_none_iff]
  constructor
  · intro h
    refine ⟨?_, ?_, ?_, ?_, ?_⟩ <;> grind
  · rintro ⟨hA, hB, hdistinct, hstarter, hturns⟩
    have hpos : p.matchup.maxTurns ≠ 0 := by
      rintro heq
      rw [heq] at hturns
      exact absurd hturns (by decide)
    grind

/-- A program is put together from its parts, as they are, exactly where it is sound. -/
theorem assemble_eq_ok_iff {fighters : Library} {m : Matchup} {scripts : List Script}
    {p : Program} :
    assemble fighters m scripts = .ok p ↔ p = ⟨fighters, m, scripts⟩ ∧ p.Sound := by
  rw [← inconsistency?_eq_none_iff, assemble]
  split
  · rename_i found hfound
    simp only [reduceCtorEq, false_iff, not_and]
    rintro rfl hnone
    exact Option.some_ne_none found (hfound.symm.trans hnone)
  · rename_i hnone
    rw [Except.ok.injEq]
    constructor
    · rintro rfl
      exact ⟨rfl, hnone⟩
    · rintro ⟨rfl, -⟩
      rfl

end Program

end Lucha
