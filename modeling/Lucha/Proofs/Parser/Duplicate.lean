import Lucha.Proofs.Parser.Verdict
import Lucha.Proofs.Registry

/-!
# Where names are found to be declared twice

Actions are declared behind the block that lists them, and so are combos, and a fighter behind its
definition. So where the reader of fighters comes to an inconsistency, it has taken some whole
definitions and one more up to the end of the block that declares a name twice, or all of it if the
name is that of a fighter (`exists_repeats_of_fighters`).
-/

namespace Lucha

namespace Grammar.Definition

/-- The tokens of a definition up to the end of its actions. -/
def upToActions (d : Definition) : List Leaf :=
  .word .luchador :: .identAt d.name d.span :: .mark .openBrace :: (statsLeaves d.hp d.stamina
    ++ .word .acciones :: braced (d.lines.flatMap ActionLine.leaves))

/-- The tokens of a definition up to the end of its combos. -/
def upToCombos (d : Definition) : List Leaf :=
  d.upToActions ++ .word .combos :: braced (d.combos.flatMap Combo.leaves)

/-- Behind the combos of a definition there is a closing brace. -/
theorem upToCombos_append (d : Definition) : d.upToCombos ++ [.mark .closeBrace] = d.leaves := by
  simp [upToCombos, upToActions, leaves, braced]

/-- A definition behind some others repeats a name that it or they declare, and this is found when
some of its tokens are taken. -/
inductive Repeats (earlier : List Definition) (d : Definition) : Inconsistency → List Leaf → Prop
  | action {first again : Action} (h : Again Action.name d.actions first again) :
    Repeats earlier d ⟨.actionTwice d.name again.name first.span.line, again.span.line⟩
      d.upToActions
  | combo (hactions : (d.actions.map Action.name).Nodup) {first again : Combo}
    (h : Again Combo.name d.combos first again) :
    Repeats earlier d ⟨.comboTwice d.name again.name first.span.line, again.span.line⟩
      d.upToCombos
  | fighter (hactions : (d.actions.map Action.name).Nodup)
    (hcombos : (d.combos.map Combo.name).Nodup) {first : Definition} (hfirst : first ∈ earlier)
    (hname : first.name = d.name) :
    Repeats earlier d ⟨.fighterTwice d.name first.span.line, d.span.line⟩ d.leaves

end Grammar.Definition

namespace Parser

open Grammar (Definition)

variable {α β : Type} {ts rest : List Token} {ahead : List TokenKind} {p : Parser α}
  {f : α → Parser β} {i : Inconsistency}

/-! ### Readers that come to an inconsistency -/

/-- Readers one after the other fail where the first one does, or where the second one does behind
it. -/
theorem bind_eq_error_iff {fault : Fault} : (p >>= f) ts = .error fault rest ↔
    p ts = .error fault rest ∨ ∃ a mid, p ts = .ok a mid ∧ f a mid = .error fault rest := by
  cases hrun : p ts with
  | error fault' rest' => simp [bind_of_error hrun]
  | ok a mid => simp [bind_of_ok hrun]

/-- Behind a reader that comes to no inconsistency. -/
theorem Steady.bind_inconsistent (hp : Steady ahead p)
    (h : (p >>= f) ts = .error (.inconsistent i) rest) :
    ∃ a mid, p ts = .ok a mid ∧ f a mid = .error (.inconsistent i) rest :=
  (bind_eq_error_iff.mp h).resolve_left (hp ts).ne_inconsistent

/-- At a declaration, or behind it. -/
theorem consistent_bind_inconsistent {e : Except Inconsistency α}
    (h : (consistent e >>= f) ts = .error (.inconsistent i) rest) :
    e = .error i ∧ ts = rest ∨ ∃ a, e = .ok a ∧ f a ts = .error (.inconsistent i) rest := by
  cases e with
  | error i' =>
    cases h
    exact .inl ⟨rfl, rfl⟩
  | ok a => exact .inr ⟨a, rfl, h⟩

/-! ### Fighters -/

theorem expect_eq_ok {kind : TokenKind} {span : Span} (h : expect kind ts = .ok span rest) :
    Spells [⟨kind, none⟩] ts rest :=
  spells_free.mpr ⟨span, expect_eq_ok_iff.mp h⟩

/-- Where the reader of a fighter comes to an inconsistency, the fighter declares a name twice, and
what is taken are the tokens of its definition up to there. -/
theorem exists_repeats_of_fighter (h : fighter ts = .error (.inconsistent i) rest)
    (earlier : List Definition) :
    ∃ d ls, Definition.Repeats earlier d i ls ∧ Spells ls ts rest := by
  obtain ⟨_, _, h₁, h⟩ := (steady_word _).bind_inconsistent h
  obtain ⟨⟨name, span⟩, _, h₂, h⟩ := (steady_ident _).bind_inconsistent h
  obtain ⟨_, _, h₃, h⟩ := (steady_mark _).bind_inconsistent h
  obtain ⟨⟨hp, stamina⟩, _, h₄, h⟩ := steady_stats.bind_inconsistent h
  obtain ⟨_, mid, h₅, h⟩ := steady_actions.bind_inconsistent h
  obtain ⟨lines, ⟨-, hlines⟩, rfl⟩ := actions_eq_ok_iff.mp h₅
  have hactions (combos : List Combo) :
      Spells (Definition.upToActions ⟨name, span, hp, stamina, lines, combos⟩) ts mid :=
    spells_cons.mpr ⟨_, expect_eq_ok h₁, spells_cons.mpr ⟨_, ident_eq_ok_iff.mp h₂,
      spells_cons.mpr ⟨_, expect_eq_ok h₃, spells_append.mpr ⟨_, stats_eq_ok_iff.mp h₄, hlines⟩⟩⟩⟩
  obtain ⟨herror, rfl⟩ | ⟨armed, harmed, h⟩ := consistent_bind_inconsistent h
  · obtain ⟨first, again, hagain, rfl⟩ := Fighter.registers_action.exists_again rfl herror
    exact ⟨⟨name, span, hp, stamina, lines, []⟩, _, .action hagain, hactions []⟩
  obtain ⟨⟨hnodup, -⟩, rfl⟩ := Fighter.declareActions_eq_ok_iff.mp harmed
  obtain ⟨combos, last, h₆, h⟩ := steady_combos.bind_inconsistent h
  have hcombos := spells_append.mpr ⟨mid, hactions combos, (combos_eq_ok_iff.mp h₆).2⟩
  obtain ⟨herror, rfl⟩ | ⟨full, -, h⟩ := consistent_bind_inconsistent h
  · obtain ⟨first, again, hagain, rfl⟩ := Fighter.registers_combo.exists_again rfl herror
    refine ⟨⟨name, span, hp, stamina, lines, combos⟩, _, .combo ?_ hagain, hcombos⟩
    exact hnodup
  · -- behind the combos nothing is declared
    obtain ⟨_, _, -, h⟩ := (steady_mark _).bind_inconsistent h
    cases h

/-- Some definitions declare the fighters of a library. -/
def Declared (ds : List Definition) (library : Library) : Prop :=
  ∃ fs, List.Forall₂ (fun d f => d.declare = .ok f) ds fs ∧
    fs.foldlM Library.declare .empty = .ok library

namespace Declared

variable {ds : List Definition} {d : Definition} {library : Library} {f : Fighter}

/-- One more definition declares one more fighter. -/
theorem concat (h : Declared ds library) (hd : d.declare = .ok f) {larger : Library}
    (hlarger : library.declare f = .ok larger) : Declared (ds ++ [d]) larger := by
  obtain ⟨fs, hfs, hlibrary⟩ := h
  refine ⟨fs ++ [f], List.rel_append hfs (.cons hd .nil), ?_⟩
  rw [List.foldlM_append, hlibrary]
  exact foldlM_cons_eq_ok_iff.mpr ⟨larger, hlarger, rfl⟩

/-- A fighter that is refused has the name of an earlier definition. -/
theorem repeats (h : Declared ds library) (hd : d.declare = .ok f)
    (herror : library.declare f = .error i) : Definition.Repeats ds d i d.leaves := by
  obtain ⟨fs, hfs, hlibrary⟩ := h
  obtain ⟨⟨hnodup, hnew⟩, rfl⟩ := Library.declareAll_eq_ok_iff.mp hlibrary
  obtain ⟨first, hfirst, rfl⟩ := Builder.built_add_eq_error_iff.mp herror
  obtain ⟨hmem, hname⟩ := (Table.Holds.empty.insertAll hnodup hnew).find?_eq_some_iff.mp hfirst
  obtain ⟨e, he, hdeclare⟩ := exists_of_mem_left hfs.flip hmem
  obtain ⟨-, hdenotes⟩ := Definition.declare_eq_ok_iff.mp hdeclare
  obtain ⟨⟨hactions, hcombos⟩, hf⟩ := Definition.declare_eq_ok_iff.mp hd
  rw [hdenotes.span, hf.name, hf.span]
  exact .fighter hactions hcombos he (hdenotes.name.symm.trans (hname.trans hf.name))

end Declared

/-- Where more fighters are read behind some that are declared, an inconsistency comes up at the
definition that repeats a name, and what is taken before is whole definitions and what that one says
up to there. -/
theorem exists_repeats_of_declared {ds : List Definition} {library : Library}
    (hds : Declared ds library) {bound : Nat}
    (h : fighters library bound ts = .error (.inconsistent i) rest) :
    ∃ more d ls, Definition.Repeats (ds ++ more) d i ls ∧
      Spells (more.flatMap Definition.leaves ++ ls) ts rest := by
  induction bound generalizing ts library ds with
  | zero => cases h
  | succ bound ih =>
    obtain hfighter | ⟨f, mid, hfighter, h⟩ := bind_eq_error_iff.mp h
    · obtain ⟨d, ls, hrepeats, hls⟩ := exists_repeats_of_fighter hfighter ds
      exact ⟨[], d, ls, by rwa [List.append_nil], hls⟩
    obtain ⟨d, ⟨-, hleaves⟩, hdeclare⟩ := fighter_eq_ok_iff.mp hfighter
    obtain ⟨herror, rfl⟩ | ⟨larger, hlarger, h⟩ := consistent_bind_inconsistent h
    · have hrepeats := hds.repeats hdeclare herror
      exact ⟨[], d, _, by rwa [List.append_nil], hleaves⟩
    · by_cases hstarts : Starts (.keyword .luchador) mid
      · rw [peek_bind_of_starts hstarts] at h
        obtain ⟨more, e, ls, hrepeats, hspells⟩ := ih (hds.concat hdeclare hlarger) h
        refine ⟨d :: more, e, ls, ?_, ?_⟩
        · rwa [List.append_assoc] at hrepeats
        · rw [List.flatMap_cons, List.append_assoc]
          exact spells_append.mpr ⟨mid, hleaves, hspells⟩
      · rw [peek_bind_of_not_starts hstarts] at h
        cases h

/-- Where the reader of fighters comes to an inconsistency, it has taken whole definitions and what
repeats a name behind them. -/
theorem exists_repeats_of_fighters {bound : Nat}
    (h : fighters .empty bound ts = .error (.inconsistent i) rest) :
    ∃ ds d ls, Definition.Repeats ds d i ls ∧
      Spells (ds.flatMap Definition.leaves ++ ls) ts rest :=
  exists_repeats_of_declared ⟨[], .nil, rfl⟩ h

end Parser

end Lucha
