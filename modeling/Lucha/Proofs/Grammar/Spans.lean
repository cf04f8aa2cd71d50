import Lucha.Proofs.Grammar.Tree
import Lucha.Proofs.Parser.Reading
import Lucha.Proofs.Program.Spans

/-!
# Trees without their spans

Whether a tree is written out and consistent, and what it denotes apart from spans, does not depend
on its spans (`Tree.written_eraseSpans_iff`, `Tree.consistent_eraseSpans_iff`,
`Tree.Denotes.eraseSpans`). And the grammar does not look at them: tokens of the kinds that a tree
has are derived by a tree that is the same up to spans (`Tree.exists_derives`).
-/

namespace Lucha

open Lucha.Parser (Trait)

namespace Grammar

/-- A strike in no source text. -/
def Strike.eraseSpan (s : Strike) : Strike := { s with span := .none }

/-- A line of actions in no source text. -/
def ActionLine.eraseSpans : ActionLine → ActionLine
  | golpe strikes => golpe (strikes.map Strike.eraseSpan)
  | patada strikes => patada (strikes.map Strike.eraseSpan)
  | bloqueo name _ => bloqueo name .none

/-- A definition in no source text. -/
def Definition.eraseSpans (d : Definition) : Definition :=
  { d with
    span := .none
    lines := d.lines.map ActionLine.eraseSpans
    combos := d.combos.map Combo.eraseSpan }

/-- A tree in no source text. -/
def Tree.eraseSpans (t : Tree) : Tree where
  definitions := t.definitions.map Definition.eraseSpans
  matchup := t.matchup.eraseSpan
  scripts := t.scripts.map Script.eraseSpans

/-! ### What does not depend on spans -/

theorem oneOrMore_map_iff {α β : Type} {P : β → Prop} {f : α → β} {items : List α} :
    OneOrMore P (items.map f) ↔ OneOrMore (fun item => P (f item)) items := by
  simp [OneOrMore]

theorem ActionLine.written_eraseSpans_iff {line : ActionLine} :
    line.eraseSpans.Written ↔ line.Written := by
  cases line with
  | golpe strikes => exact oneOrMore_map_iff
  | patada strikes => exact oneOrMore_map_iff
  | bloqueo name span => exact Iff.rfl

theorem Definition.written_eraseSpans_iff {d : Definition} : d.eraseSpans.Written ↔ d.Written := by
  simp only [Written, eraseSpans, oneOrMore_map_iff, ActionLine.written_eraseSpans_iff]
  rfl

end Grammar

namespace Block

@[simp]
theorem written_eraseSpans_iff {b : Block} : b.eraseSpans.Written ↔ b.Written := by
  induction b with
  | done => rfl
  | use name span next ih => exact ih
  | choose condition yes no next hyes hno hnext =>
    simp [eraseSpans, Written, hyes, hno, hnext]

@[simp]
theorem nesting_eraseSpans (b : Block) : b.eraseSpans.nesting = b.nesting := by
  induction b with
  | done => rfl
  | use name span next ih => exact ih
  | choose condition yes no next hyes hno hnext => simp [eraseSpans, nesting, hyes, hno, hnext]

end Block

theorem Script.written_eraseSpans_iff {s : Script} : s.eraseSpans.Written ↔ s.Written := by
  simp [Script.Written, Script.eraseSpans]

namespace Grammar

theorem Tree.written_eraseSpans_iff {t : Tree} : t.eraseSpans.Written ↔ t.Written := by
  simp only [Written, eraseSpans, oneOrMore_map_iff, Definition.written_eraseSpans_iff,
    Script.written_eraseSpans_iff]

theorem ActionLine.actions_eraseSpans (line : ActionLine) :
    line.eraseSpans.actions = line.actions.map Action.eraseSpan := by
  cases line with
  | bloqueo name span => rfl
  | _ strikes =>
    simp only [eraseSpans, actions, List.map_map]
    exact List.map_congr_left fun s _ => rfl

theorem Definition.actions_eraseSpans (d : Definition) :
    d.eraseSpans.actions = d.actions.map Action.eraseSpan := by
  simp only [actions, eraseSpans, List.flatMap_map, List.map_flatMap, ActionLine.actions_eraseSpans]

theorem Definition.actionNames_eraseSpans (d : Definition) :
    d.eraseSpans.actions.map Action.name = d.actions.map Action.name := by
  rw [actions_eraseSpans, List.map_map]
  rfl

theorem Definition.comboNames_eraseSpans (d : Definition) :
    d.eraseSpans.combos.map Combo.name = d.combos.map Combo.name := by
  rw [eraseSpans, List.map_map]
  rfl

theorem Tree.names_eraseSpans (t : Tree) : t.eraseSpans.names = t.names := by
  rw [names, eraseSpans, List.map_map]
  rfl

/-- Which names come twice, and which are declared, does not depend on where they stand. -/
theorem Tree.consistent_eraseSpans_iff {t : Tree} : t.eraseSpans.Consistent ↔ t.Consistent := by
  constructor
  · rintro ⟨hfighters, hactions, hcombos, hA, hB, hdistinct, hstarter, hturns⟩
    rw [names_eraseSpans] at hfighters hA hB
    refine ⟨hfighters, fun d hd => ?_, fun d hd => ?_, hA, hB, hdistinct, hstarter, hturns⟩
    · rw [← Definition.actionNames_eraseSpans]
      exact hactions _ (List.mem_map_of_mem hd)
    · rw [← Definition.comboNames_eraseSpans]
      exact hcombos _ (List.mem_map_of_mem hd)
  · rintro ⟨hfighters, hactions, hcombos, hA, hB, hdistinct, hstarter, hturns⟩
    rw [← names_eraseSpans] at hfighters hA hB
    refine ⟨hfighters, fun d hd => ?_, fun d hd => ?_, hA, hB, hdistinct, hstarter, hturns⟩
    · obtain ⟨d, hmem, rfl⟩ := List.mem_map.mp hd
      rw [Definition.actionNames_eraseSpans]
      exact hactions d hmem
    · obtain ⟨d, hmem, rfl⟩ := List.mem_map.mp hd
      rw [Definition.comboNames_eraseSpans]
      exact hcombos d hmem

/-- A definition without its spans denotes the fighter without its spans. -/
theorem Definition.Denotes.eraseSpans {d : Definition} {f : Fighter} (h : d.Denotes f) :
    d.eraseSpans.Denotes f.eraseSpans where
  name := h.name
  span := rfl
  hpMax := h.hpMax
  staminaMax := h.staminaMax
  actions := by
    rw [actions_eraseSpans]
    exact h.actions.mapValues fun _ => rfl
  combos := h.combos.mapValues fun _ => rfl

/-- A tree without its spans denotes the program without its spans. -/
theorem Tree.Denotes.eraseSpans {t : Tree} {p : Program} (h : t.Denotes p) :
    t.eraseSpans.Denotes p.eraseSpans where
  matchup := congrArg Matchup.eraseSpan h.matchup
  scripts := congrArg (List.map Script.eraseSpans) h.scripts
  fighters := by
    obtain ⟨fs, hfs, hheld⟩ := h.fighters
    refine ⟨fs.map Fighter.eraseSpans, ?_, hheld.mapValues fun _ => rfl⟩
    rw [Tree.eraseSpans, List.forall₂_map_left_iff, List.forall₂_map_right_iff]
    exact hfs.imp fun _ _ hd => hd.eraseSpans

end Grammar

/-! ### What the grammar does not look at -/

/-- A leaf that does not keep its span. -/
def Leaf.free (leaf : Leaf) : Leaf := ⟨leaf.kind, none⟩

namespace Leaf

@[simp]
theorem free_word (k : Keyword) : (word k).free = word k := rfl

@[simp]
theorem free_mark (m : Symbol) : (mark m).free = mark m := rfl

@[simp]
theorem free_ident (name : String) : (ident name).free = ident name := rfl

@[simp]
theorem free_number (q : Quantity) : (number q).free = number q := rfl

@[simp]
theorem free_identAt (name : String) (span : Span) : (identAt name span).free = ident name := rfl

@[simp]
theorem free_wordAt (k : Keyword) (span : Span) : (wordAt k span).free = word k := rfl

end Leaf

/-- The tokens of leaves are also those of the leaves without their spans. -/
theorem Spells.free {ls : List Leaf} {ts rest : List Token} (h : Spells ls ts rest) :
    Spells (ls.map Leaf.free) ts rest := by
  induction ls generalizing ts with
  | nil => exact h
  | cons leaf ls ih =>
    obtain ⟨token, tail, rfl, ⟨hkind, -⟩, htail⟩ := h
    exact ⟨token, tail, rfl, ⟨hkind, by simp [Leaf.free]⟩, ih htail⟩

theorem spells_free_append {ls ms : List Leaf} {ts rest : List Token} :
    Spells ((ls ++ ms).map Leaf.free) ts rest ↔
      ∃ mid, Spells (ls.map Leaf.free) ts mid ∧ Spells (ms.map Leaf.free) mid rest := by
  rw [List.map_append, spells_append]

/-- Whether tokens are those of leaves apart from spans is a matter of their kinds. -/
theorem spells_free_iff {ls : List Leaf} {ts : List Token} :
    Spells (ls.map Leaf.free) ts [] ↔ ls.map Leaf.kind = ts.map Token.kind := by
  induction ls generalizing ts with
  | nil => cases ts <;> simp [Spells]
  | cons leaf ls ih =>
    cases ts with
    | nil => simp [Spells]
    | cons token ts => simp [Spells, ih, Leaf.Fits, Leaf.free, eq_comm]

namespace Grammar

variable {τ : Type} {erase : τ → τ} {leaves : τ → List Leaf} {t : τ}

/-- Tokens of the kinds of a tree are those of a tree that is the same up to spans. -/
def Respans (erase : τ → τ) (leaves : τ → List Leaf) (t : τ) : Prop :=
  ∀ ⦃ts rest⦄, Spells ((leaves t).map Leaf.free) ts rest →
    ∃ u, erase u = erase t ∧ Spells (leaves u) ts rest

namespace Respans

/-- A tree that keeps no spans. -/
theorem of_free (h : (leaves t).map Leaf.free = leaves t) : Respans id leaves t := by
  intro ts rest hspells
  rw [h] at hspells
  exact ⟨t, rfl, hspells⟩

/-- One leaf before a tree. -/
theorem cons (h : Respans erase leaves t) (leaf : Leaf) (hleaf : leaf.free = leaf) :
    Respans erase (fun t => leaf :: leaves t) t := by
  intro ts rest hspells
  simp only [List.map_cons, hleaf] at hspells
  obtain ⟨mid, hfirst, hspells⟩ := spells_cons.mp hspells
  obtain ⟨u, hu, hspells⟩ := h hspells
  exact ⟨u, hu, spells_cons.mpr ⟨mid, hfirst, hspells⟩⟩

/-- Trees one behind the other. -/
theorem flatMap (h : ∀ t, Respans erase leaves t) (trees : List τ) :
    Respans (List.map erase) (List.flatMap leaves) trees := by
  induction trees with
  | nil => exact fun ts rest hspells => ⟨[], rfl, hspells⟩
  | cons t trees ih =>
    intro ts rest hspells
    rw [List.flatMap_cons] at hspells
    obtain ⟨mid, hfirst, hspells⟩ := spells_free_append.mp hspells
    obtain ⟨u, hu, hfirst⟩ := h t hfirst
    obtain ⟨others, hothers, hspells⟩ := ih hspells
    refine ⟨u :: others, by rw [List.map_cons, List.map_cons, hu, hothers], ?_⟩
    rw [List.flatMap_cons]
    exact spells_append.mpr ⟨mid, hfirst, hspells⟩

/-- Trees with commas between them. -/
theorem separated (h : ∀ t, Respans erase leaves t) (trees : List τ) :
    Respans (List.map erase) (Grammar.separated leaves) trees := by
  have hmore := flatMap fun t => (h t).cons (.mark .comma) rfl
  intro ts rest hspells
  cases trees with
  | nil => exact ⟨[], rfl, hspells⟩
  | cons t trees =>
    obtain ⟨mid, hfirst, hspells⟩ := spells_free_append.mp hspells
    obtain ⟨u, hu, hfirst⟩ := h t hfirst
    obtain ⟨others, hothers, hspells⟩ := hmore trees hspells
    exact ⟨u :: others, by rw [List.map_cons, List.map_cons, hu, hothers],
      spells_append.mpr ⟨mid, hfirst, hspells⟩⟩

/-- A tree between braces. -/
theorem braced (h : Respans erase leaves t) :
    Respans erase (fun t => Grammar.braced (leaves t)) t := by
  intro ts rest hspells
  obtain ⟨start, hopen, hspells⟩ := spells_cons.mp hspells
  obtain ⟨stop, hspells, hclose⟩ := spells_free_append.mp hspells
  obtain ⟨u, hu, hspells⟩ := h hspells
  exact ⟨u, hu, spells_cons.mpr ⟨start, hopen, spells_append.mpr ⟨stop, hspells, hclose⟩⟩⟩

end Respans

theorem Trait.map_free_leaves (t : Trait) : t.leaves.map Leaf.free = t.leaves := by
  cases t <;> rfl

/-- A strike takes the span of its name from the tokens. -/
theorem Strike.respans (s : Strike) : Respans Strike.eraseSpan Strike.leaves s := by
  intro ts rest hspells
  obtain ⟨name, span, traits⟩ := s
  have htraits := Respans.separated (fun t => Respans.of_free (Trait.map_free_leaves t)) traits
  obtain ⟨mid, hname, hspells⟩ := spells_cons.mp hspells
  obtain ⟨span', hname⟩ := Parser.exists_spells_identAt.mpr hname
  obtain ⟨start, hopen, hspells⟩ := spells_cons.mp hspells
  obtain ⟨stop, hspells, hclose⟩ := spells_free_append.mp hspells
  obtain ⟨traits', heq, hspells⟩ := htraits hspells
  rw [List.map_id, List.map_id] at heq
  have hbehind := spells_cons.mpr ⟨start, hopen, spells_append.mpr ⟨stop, hspells, hclose⟩⟩
  have hall := spells_cons.mpr ⟨mid, hname, hbehind⟩
  exact ⟨⟨name, span', traits'⟩, by rw [heq]; rfl, hall⟩

/-- A line of strikes, after the word that announces it. -/
private theorem respans_strikes (k : Keyword) (strikes : List Strike) :
    Respans (List.map Strike.eraseSpan) (fun strikes => .word k :: .mark .colon ::
      (Grammar.separated Strike.leaves strikes ++ [.mark .semicolon])) strikes := by
  intro ts rest hspells
  obtain ⟨mid, hword, hspells⟩ := spells_cons.mp hspells
  obtain ⟨start, hcolon, hspells⟩ := spells_cons.mp hspells
  obtain ⟨stop, hspells, hsemicolon⟩ := spells_free_append.mp hspells
  obtain ⟨strikes', heq, hspells⟩ := Respans.separated Strike.respans strikes hspells
  have hbehind := spells_cons.mpr
    ⟨start, hcolon, spells_append.mpr ⟨stop, hspells, hsemicolon⟩⟩
  exact ⟨strikes', heq, spells_cons.mpr ⟨mid, hword, hbehind⟩⟩

/-- A line of actions takes the spans of its names from the tokens. -/
theorem ActionLine.respans (line : ActionLine) :
    Respans ActionLine.eraseSpans ActionLine.leaves line := by
  intro ts rest hspells
  cases line with
  | golpe strikes =>
    obtain ⟨strikes', heq, hspells⟩ := respans_strikes .golpe strikes hspells
    exact ⟨.golpe strikes', congrArg golpe heq, hspells⟩
  | patada strikes =>
    obtain ⟨strikes', heq, hspells⟩ := respans_strikes .patada strikes hspells
    exact ⟨.patada strikes', congrArg patada heq, hspells⟩
  | bloqueo name span =>
    obtain ⟨mid, hword, hspells⟩ := spells_cons.mp hspells
    obtain ⟨start, hcolon, hspells⟩ := spells_cons.mp hspells
    obtain ⟨stop, hname, hsemicolon⟩ := spells_cons.mp hspells
    obtain ⟨span', hname⟩ := Parser.exists_spells_identAt.mpr hname
    have hbehind := spells_cons.mpr
      ⟨start, hcolon, spells_cons.mpr ⟨stop, hname, hsemicolon⟩⟩
    exact ⟨.bloqueo name span', rfl, spells_cons.mpr ⟨mid, hword, hbehind⟩⟩

end Grammar

open Grammar (Respans)

/-- A combo takes the span of its name from the tokens. -/
theorem Combo.respans (c : Combo) : Respans Combo.eraseSpan Combo.leaves c := by
  intro ts rest hspells
  obtain ⟨name, cost, steps, span⟩ := c
  have hsteps : (Grammar.separated (fun step => [.ident step]) steps).map Leaf.free
      = Grammar.separated (fun step => [.ident step]) steps := by
    cases steps <;> simp [Grammar.separated, List.map_flatMap]
  obtain ⟨mid, hname, hspells⟩ := spells_cons.mp hspells
  obtain ⟨span', hname⟩ := Parser.exists_spells_identAt.mpr hname
  refine ⟨⟨name, cost, steps, span'⟩, rfl, spells_cons.mpr ⟨mid, hname, ?_⟩⟩
  simpa [Grammar.braced, hsteps] using hspells

/-- A definition takes the span of its name from the tokens, and its actions and combos take
theirs. -/
theorem Grammar.Definition.respans (d : Definition) :
    Respans Definition.eraseSpans Definition.leaves d := by
  intro ts rest hspells
  obtain ⟨name, span, hp, stamina, lines, combos⟩ := d
  obtain ⟨mid, hword, hspells⟩ := spells_cons.mp hspells
  obtain ⟨start, hname, hspells⟩ := spells_cons.mp hspells
  obtain ⟨span', hname⟩ := Parser.exists_spells_identAt.mpr hname
  obtain ⟨first, hopen, hspells⟩ := spells_cons.mp hspells
  obtain ⟨last, hspells, hclose⟩ := spells_free_append.mp hspells
  obtain ⟨middle, hspells, hcombos⟩ := spells_free_append.mp hspells
  obtain ⟨front, hstats, hlines⟩ := spells_free_append.mp hspells
  obtain ⟨lines', heqLines, hlines⟩ :=
    (Respans.flatMap ActionLine.respans lines).braced.cons (.word .acciones) rfl hlines
  obtain ⟨combos', heqCombos, hcombos⟩ :=
    (Respans.flatMap Combo.respans combos).braced.cons (.word .combos) rfl hcombos
  have hitems := spells_append.mpr
    ⟨middle, spells_append.mpr ⟨front, hstats, hlines⟩, hcombos⟩
  have hbraced := spells_cons.mpr ⟨first, hopen, spells_append.mpr ⟨last, hitems, hclose⟩⟩
  have hall := spells_cons.mpr ⟨mid, hword, spells_cons.mpr ⟨start, hname, hbraced⟩⟩
  exact ⟨⟨name, span', hp, stamina, lines', combos'⟩, by simp [eraseSpans, *], hall⟩

namespace Block

/-- The second block of a conditional, if there is one. -/
private def otherwiseLeaves (no : Block) : List Leaf :=
  if no = done then [] else .word .sino :: Grammar.braced no.leaves

/-- What stands behind `sino` takes its spans from the tokens, if there is anything. -/
private theorem respans_otherwise {no : Block} (h : Respans eraseSpans leaves no) :
    Respans eraseSpans otherwiseLeaves no := by
  intro ts rest hspells
  rw [otherwiseLeaves] at hspells
  by_cases hno : no = done
  · rw [if_pos hno] at hspells
    exact ⟨no, rfl, by rwa [otherwiseLeaves, if_pos hno]⟩
  · rw [if_neg hno] at hspells
    obtain ⟨no', heq, hspells⟩ := h.braced.cons (.word .sino) rfl hspells
    -- a block is empty if and only if it is without its spans, so `sino` stands there as well
    have hno' : no' ≠ done := fun hdone =>
      hno (eraseSpans_eq_done_iff.mp (heq ▸ eraseSpans_eq_done_iff.mpr hdone))
    exact ⟨no', heq, by rwa [otherwiseLeaves, if_neg hno']⟩

/-- A block takes the spans of the names that it uses from the tokens, by induction on the block. -/
theorem respans (b : Block) : Respans eraseSpans leaves b := by
  induction b with
  | done => exact fun ts rest hspells => ⟨done, rfl, hspells⟩
  | use name span next ih =>
    intro ts rest hspells
    obtain ⟨mid, hword, hspells⟩ := spells_cons.mp hspells
    obtain ⟨start, hname, hspells⟩ := spells_cons.mp hspells
    obtain ⟨stop, hsemicolon, hspells⟩ := spells_cons.mp hspells
    obtain ⟨span', hname⟩ := Parser.exists_spells_identAt.mpr hname
    obtain ⟨next', hnext, hspells⟩ := ih hspells
    have hbehind := spells_cons.mpr
      ⟨start, hname, spells_cons.mpr ⟨stop, hsemicolon, hspells⟩⟩
    have hall := spells_cons.mpr ⟨mid, hword, hbehind⟩
    exact ⟨use name span' next', congrArg (use name .none) hnext, hall⟩
  | choose condition yes no next hyes hno hnext =>
    intro ts rest hspells
    obtain ⟨mid₁, hword, hspells⟩ := spells_cons.mp hspells
    obtain ⟨mid₂, hopen, hspells⟩ := spells_cons.mp hspells
    obtain ⟨mid₃, hcondition, hspells⟩ := spells_free_append.mp hspells
    obtain ⟨mid₄, hclose, hspells⟩ := spells_cons.mp hspells
    obtain ⟨mid₆, hspells, hlast⟩ := spells_free_append.mp hspells
    obtain ⟨mid₅, hfirst, hsecond⟩ := spells_free_append.mp hspells
    obtain ⟨yes', heqYes, hfirst⟩ := hyes.braced hfirst
    obtain ⟨no', heqNo, hsecond⟩ := respans_otherwise hno hsecond
    obtain ⟨next', heqNext, hlast⟩ := hnext hlast
    have hblocks := spells_append.mpr
      ⟨mid₆, spells_append.mpr ⟨mid₅, hfirst, hsecond⟩, hlast⟩
    refine ⟨choose condition yes' no' next', by simp [eraseSpans, *], ?_⟩
    refine spells_cons.mpr ⟨mid₁, hword, spells_cons.mpr ⟨mid₂, hopen, ?_⟩⟩
    exact spells_append.mpr ⟨mid₃, hcondition, spells_cons.mpr ⟨mid₄, hclose, hblocks⟩⟩

end Block

/-- A script takes the span of the word that announces it from the tokens, and its block takes its
own. -/
theorem Script.respans (s : Script) : Respans Script.eraseSpans Script.leaves s := by
  intro ts rest hspells
  obtain ⟨fighter, body, span⟩ := s
  obtain ⟨mid, hword, hspells⟩ := spells_cons.mp hspells
  obtain ⟨span', hword⟩ := spells_free.mp hword
  obtain ⟨start, hname, hspells⟩ := spells_cons.mp hspells
  obtain ⟨body', heq, hspells⟩ := body.respans.braced hspells
  refine ⟨⟨fighter, body', span'⟩, by simp [eraseSpans, heq], ?_⟩
  exact spells_cons.mpr ⟨mid, spells_kept.mpr hword, spells_cons.mpr ⟨start, hname, hspells⟩⟩

/-- A matchup takes the span of the word that announces it from the tokens. -/
theorem Matchup.respans (m : Matchup) : Respans Matchup.eraseSpan Matchup.leaves m := by
  intro ts rest hspells
  obtain ⟨fighterA, fighterB, starter, maxTurns, span⟩ := m
  obtain ⟨mid, hword, hspells⟩ := spells_cons.mp hspells
  obtain ⟨span', hword⟩ := spells_free.mp hword
  exact ⟨⟨fighterA, fighterB, starter, maxTurns, span'⟩, rfl,
    spells_cons.mpr ⟨mid, spells_kept.mpr hword, hspells⟩⟩

namespace Grammar.Tree

/-- A tree takes all its spans from the tokens. -/
theorem respans (t : Tree) : Respans Tree.eraseSpans Tree.leaves t := by
  intro ts rest hspells
  obtain ⟨definitions, m, scripts⟩ := t
  obtain ⟨mid₁, hdefinitions, hspells⟩ := spells_free_append.mp hspells
  obtain ⟨mid₂, hword, hspells⟩ := spells_cons.mp hspells
  obtain ⟨mid₃, hopen, hspells⟩ := spells_cons.mp hspells
  obtain ⟨mid₅, hspells, hclose⟩ := spells_free_append.mp hspells
  obtain ⟨mid₄, hmatchup, hscripts⟩ := spells_free_append.mp hspells
  obtain ⟨definitions', heqDefinitions, hdefinitions⟩ :=
    Respans.flatMap Definition.respans definitions hdefinitions
  obtain ⟨m', heqMatchup, hmatchup⟩ := m.respans hmatchup
  obtain ⟨scripts', heqScripts, hscripts⟩ :=
    (Respans.flatMap Script.respans scripts).braced.cons (.word .pelea) rfl hscripts
  have hbody := spells_append.mpr
    ⟨mid₅, spells_append.mpr ⟨mid₄, hmatchup, hscripts⟩, hclose⟩
  have hsimulation := spells_cons.mpr ⟨mid₂, hword, spells_cons.mpr ⟨mid₃, hopen, hbody⟩⟩
  have hall := spells_append.mpr ⟨mid₁, hdefinitions, hsimulation⟩
  exact ⟨⟨definitions', m', scripts'⟩, by simp [eraseSpans, *], hall⟩

/-- The tree derives tokens of some kinds. -/
def DerivesKinds (t : Tree) (kinds : List TokenKind) : Prop :=
  t.Written ∧ t.leaves.map Leaf.kind = kinds

theorem Derives.derivesKinds {t : Tree} {ts : List Token} (h : t.Derives ts) :
    t.DerivesKinds (ts.map Token.kind) :=
  ⟨h.1, spells_free_iff.mp h.2.free⟩

/-- Tokens of the kinds that a tree derives are derived by a tree that is the same up to spans. -/
theorem DerivesKinds.exists_derives {t : Tree} {ts : List Token}
    (h : t.DerivesKinds (ts.map Token.kind)) :
    ∃ u : Tree, u.eraseSpans = t.eraseSpans ∧ u.Derives ts := by
  obtain ⟨u, heq, hspells⟩ := t.respans (spells_free_iff.mpr h.2)
  exact ⟨u, heq, written_eraseSpans_iff.mp (heq ▸ written_eraseSpans_iff.mpr h.1), hspells⟩

end Grammar.Tree

end Lucha
