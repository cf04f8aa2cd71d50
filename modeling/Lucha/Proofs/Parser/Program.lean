import Lucha.Proofs.Parser.Fighter
import Lucha.Proofs.Parser.Simulation

/-!
# What the reader of programs reads

The reader of programs answers a program and leaves nothing if and only if a tree derives the
tokens, is consistent, and denotes the program (`program_eq_ok_iff`). The checks between the lines
of the reader come down to `Tree.Consistent` because declarations only depend on the names declared
before them.
-/

namespace Lucha

open Grammar (OneOrMore Definition Tree)

variable {ts rest : List Token}

namespace Parser

/-- Fighters are read as their definitions as long as one is announced, and declared. -/
theorem fighters_eq_ok_iff {bound : Nat} (hbound : ts.length < bound) {library full : Library} :
    fighters library bound ts = .ok full rest ↔
      ∃ (ds : List Definition) (fs : List Fighter), (OneOrMore Definition.Written ds ∧
        Spells (ds.flatMap Definition.leaves) ts rest ∧ ¬ Starts (.keyword .luchador) rest) ∧
          List.Forall₂ (fun d f => d.declare = .ok f) ds fs ∧
            fs.foldlM Library.declare library = .ok full := by
  induction bound generalizing ts library with
  | zero => omega
  | succ bound ih =>
    rw [fighters]
    simp only [bind_eq_ok_iff (p := fighter), fighter_eq_ok_iff, bind_eq_ok_iff (p := consistent _),
      consistent_eq_ok_iff, peek_bind_eq_ok_iff, pure_eq_ok_iff]
    constructor
    · rintro ⟨f, mid, ⟨d, ⟨hd, hleaves⟩, hf⟩, more, _, ⟨hmore, rfl⟩,
        ⟨-, hread⟩ | ⟨hstop, rfl, rfl⟩⟩
      · have hmid : mid.length < bound :=
          Nat.lt_of_lt_of_le (Spells.length_lt hleaves) (Nat.le_of_lt_succ hbound)
        obtain ⟨ds, fs, ⟨⟨-, hds⟩, hrest, hstop⟩, hfs, hfull⟩ := (ih hmid).mp hread
        have hwritten : OneOrMore Definition.Written (d :: ds) :=
          ⟨List.cons_ne_nil _ _, List.forall_mem_cons.mpr ⟨hd, hds⟩⟩
        have hall := spells_append.mpr ⟨mid, hleaves, hrest⟩
        rw [← List.flatMap_cons] at hall
        have hdeclared := foldlM_cons_eq_ok_iff.mpr ⟨more, hmore, hfull⟩
        exact ⟨d :: ds, f :: fs, ⟨hwritten, hall, hstop⟩, .cons hf hfs, hdeclared⟩
      · have hwritten : OneOrMore Definition.Written [d] :=
          ⟨List.cons_ne_nil _ _, List.forall_mem_singleton.mpr hd⟩
        have hdeclared : [f].foldlM Library.declare library = .ok more :=
          foldlM_cons_eq_ok_iff.mpr ⟨more, hmore, rfl⟩
        rw [← List.flatMap_singleton Definition.leaves d] at hleaves
        exact ⟨[d], [f], ⟨hwritten, hleaves, hstop⟩, .cons hf .nil, hdeclared⟩
    · rintro ⟨_, _, ⟨⟨hne, hds⟩, hleaves, hstop⟩, _ | ⟨hf, hfs⟩, hfull⟩
      · exact absurd rfl hne
      · rename_i d f ds fs
        obtain ⟨hd, hds⟩ := List.forall_mem_cons.mp hds
        obtain ⟨more, hmore, hfull⟩ := foldlM_cons_eq_ok_iff.mp hfull
        rw [List.flatMap_cons] at hleaves
        obtain ⟨mid, hfirst, hrest⟩ := spells_append.mp hleaves
        refine ⟨f, mid, ⟨d, ⟨hd, hfirst⟩, hf⟩, more, mid, ⟨hmore, rfl⟩, ?_⟩
        -- the next definition starts with the word that announces it, and nothing else does
        cases hfs with
        | nil =>
          cases spells_nil.mp hrest
          cases hfull
          exact .inr ⟨hstop, rfl, rfl⟩
        | cons hf' hfs' =>
          have hmid : mid.length < bound :=
            Nat.lt_of_lt_of_le (Spells.length_lt hfirst) (Nat.le_of_lt_succ hbound)
          have hstarts : Starts (.keyword .luchador) mid := (Spells.starts_iff hrest).mpr rfl
          have hread := (ih hmid).mpr
            ⟨_, _, ⟨⟨List.cons_ne_nil _ _, hds⟩, hrest, hstop⟩, .cons hf' hfs', hfull⟩
          exact .inl ⟨hstarts, hread⟩

/-- The end of the tokens is accepted where there are none. -/
theorem atEnd_eq_ok_iff {a : Unit} : atEnd ts = .ok a rest ↔ ts = [] ∧ rest = [] := by
  cases ts with
  | nil => simp [atEnd, eq_comm]
  | cons token ts =>
    rw [atEnd]
    · simp [refuse_ne_ok]
    · simp

end Parser

/-! ### Declaring what a tree says -/

namespace Grammar

/-- Definitions declare fighters if none declares a name twice, and then those they denote. -/
theorem Definition.declareAll_iff {ds : List Definition} {fs : List Fighter} :
    List.Forall₂ (fun d f => d.declare = .ok f) ds fs ↔
      (∀ d ∈ ds, (d.actions.map Action.name).Nodup ∧ (d.combos.map Combo.name).Nodup) ∧
        List.Forall₂ Definition.Denotes ds fs := by
  simp only [Definition.declare_eq_ok_iff, List.forall₂_and_left]

/-- Fighters have the names of their definitions. -/
theorem Definition.names_eq {ds : List Definition} {fs : List Fighter}
    (h : List.Forall₂ Definition.Denotes ds fs) :
    fs.map Fighter.name = ds.map Definition.name := by
  induction h with
  | nil => rfl
  | cons hd _ ih => rw [List.map_cons, List.map_cons, hd.name, ih]

namespace Tree

/-- The names that a denoted program looks its combatants up with are those of the tree. -/
theorem Denotes.contains_iff {t : Tree} {p : Program} (h : t.Denotes p) {name : String} :
    p.fighters.contains name = true ↔ name ∈ t.names := by
  obtain ⟨fs, hfs, hheld⟩ := h.fighters
  rw [hheld.contains_eq_true_iff, Definition.names_eq hfs, names]

/-- The tree of a program that can be fought is consistent: tables have no name twice. -/
theorem Denotes.consistent {t : Tree} {p : Program} (h : t.Denotes p) (hsound : p.Sound) :
    t.Consistent := by
  obtain ⟨hA, hB, hdistinct, hstarter, hturns⟩ := hsound
  rw [h.contains_iff, h.matchup] at hA hB
  rw [h.matchup] at hdistinct hstarter hturns
  obtain ⟨fs, hfs, hheld⟩ := h.fighters
  have hdeclared (d : Definition) (hd : d ∈ t.definitions) : ∃ f, d.Denotes f := by
    obtain ⟨f, -, hf⟩ := exists_of_mem_left hfs hd
    exact ⟨f, hf⟩
  have hnames := hheld.nodup
  rw [Definition.names_eq hfs] at hnames
  refine ⟨hnames, fun d hd => ?_, fun d hd => ?_, hA, hB, hdistinct, hstarter, hturns⟩
  · obtain ⟨f, hf⟩ := hdeclared d hd
    exact hf.actions.nodup
  · obtain ⟨f, hf⟩ := hdeclared d hd
    exact hf.combos.nodup

/-- Declaring the definitions and assembling the program succeeds if and only if the tree is
consistent, and gives the program that the tree denotes. -/
theorem assembles_iff {t : Tree} {p : Program} :
    (∃ fs library, List.Forall₂ (fun d f => d.declare = .ok f) t.definitions fs ∧
      fs.foldlM Library.declare .empty = .ok library ∧
        Program.assemble library t.matchup t.scripts = .ok p) ↔ t.Consistent ∧ t.Denotes p := by
  simp only [Definition.declareAll_iff, Library.declareAll_eq_ok_iff, Program.assemble_eq_ok_iff]
  constructor
  · rintro ⟨fs, _, ⟨-, hfs⟩, ⟨⟨hnames, -⟩, rfl⟩, rfl, hsound⟩
    have hheld := Table.Holds.empty.insertAll hnames fun _ _ => rfl
    have hdenotes : t.Denotes ⟨_, t.matchup, t.scripts⟩ := ⟨rfl, rfl, fs, hfs, hheld⟩
    exact ⟨hdenotes.consistent hsound, hdenotes⟩
  · rintro ⟨hconsistent, hdenotes⟩
    obtain ⟨fs, hfs, hheld⟩ := hdenotes.fighters
    have hlibrary := (Table.Holds.empty.insertAll hheld.nodup fun _ _ => rfl).unique hheld
    refine ⟨fs, p.fighters, ⟨fun d hd => ⟨hconsistent.actions d hd, hconsistent.combos d hd⟩, hfs⟩,
      ⟨⟨hheld.nodup, fun _ _ => rfl⟩, hlibrary⟩, ?_, ?_⟩
    · rw [← hdenotes.matchup, ← hdenotes.scripts]
    · exact
        { fighterA := hdenotes.contains_iff.mpr (hdenotes.matchup ▸ hconsistent.fighterA)
          fighterB := hdenotes.contains_iff.mpr (hdenotes.matchup ▸ hconsistent.fighterB)
          combatants := hdenotes.matchup ▸ hconsistent.combatants
          starter := hdenotes.matchup ▸ hconsistent.starter
          maxTurns := hdenotes.matchup ▸ hconsistent.maxTurns }

end Tree

end Grammar

namespace Parser

/-- The reader of programs answers the programs that consistent trees denote, and no others. -/
theorem program_eq_ok_iff {p : Program} :
    program ts = .ok p rest ↔
      (∃ t : Tree, t.Derives ts ∧ t.Consistent ∧ t.Denotes p) ∧ rest = [] := by
  rw [program, get_bind_eq_ok_iff]
  simp only [bind_eq_ok_iff (p := fighters _ _), fighters_eq_ok_iff (Nat.lt_succ_self _),
    bind_eq_ok_iff (p := simulation), Prod.exists, simulation_eq_ok_iff,
    bind_eq_ok_iff (p := atEnd), atEnd_eq_ok_iff, consistent_eq_ok_iff, ← Tree.assembles_iff]
  constructor
  · rintro ⟨library, mid, ⟨ds, fs, ⟨hds, hdefinitions, -⟩, hfs, hlibrary⟩, m, ss, _,
      ⟨hss, hsimulation⟩, _, _, ⟨rfl, rfl⟩, hassemble, rfl⟩
    refine ⟨⟨⟨ds, m, ss⟩, ⟨⟨hds, hss⟩, ?_⟩, fs, library, hfs, hlibrary, hassemble⟩, rfl⟩
    exact spells_append.mpr ⟨mid, hdefinitions, hsimulation⟩
  · rintro ⟨⟨⟨ds, m, ss⟩, ⟨⟨hds, hss⟩, hleaves⟩, fs, library, hfs, hlibrary, hassemble⟩, rfl⟩
    obtain ⟨mid, hdefinitions, hsimulation⟩ := spells_append.mp hleaves
    have hstop : ¬ Starts (.keyword .luchador) mid := fun hstarts =>
      nomatch hsimulation.starts_iff.mp hstarts
    exact ⟨library, mid, ⟨ds, fs, ⟨hds, hdefinitions, hstop⟩, hfs, hlibrary⟩, m, ss, [],
      ⟨hss, hsimulation⟩, (), [], ⟨rfl, rfl⟩, hassemble, rfl⟩

end Parser

end Lucha
