import Lucha.Proofs.Assembly
import Lucha.Proofs.Parser.Repetition
import Mathlib.Data.List.Induction

/-!
# What the readers of fighters read

Strikes, lines of actions and combos are read as the trees of the grammar. The attributes of a
strike are applied one after the other, which leaves the value of the last of each kind
(`foldl_apply`). A fighter is read as its definition, and then its actions and combos are declared,
which succeeds if and only if their names are distinct, and gives the one fighter that the
definition denotes (`fighter_eq_ok_iff`, `declare_eq_ok_iff`).
-/

namespace Lucha

open Grammar (OneOrMore separated ActionLine Definition Strike)

variable {ts rest : List Token}

namespace Parser

/-- The word that a value is set with. -/
def TraitKey.word : TraitKey → Keyword
  | damage => .dano
  | cost => .costo
  | height => .altura
  | shape => .forma
  | spinning => .giratoria

/-- Each attribute has one word. -/
theorem TraitKey.ofKeyword?_eq_some_iff (k : Keyword) (key : TraitKey) :
    ofKeyword? k = some key ↔ k = key.word := by
  cases key <;> cases k <;> simp [ofKeyword?, word]

theorem heightOf?_eq_some_iff (k : Keyword) (aim : Height) :
    heightOf? k = some aim ↔ k = aim.word := by
  cases aim <;> cases k <;> simp [heightOf?, Height.word]

theorem shapeOf?_eq_some_iff (k : Keyword) (path : Shape) :
    shapeOf? k = some path ↔ k = path.word := by
  cases path <;> cases k <;> simp [shapeOf?, Shape.word]

theorem answerOf?_eq_some_iff (k : Keyword) (answer : Bool) :
    answerOf? k = some answer ↔ k = Grammar.answerWord answer := by
  cases answer <;> cases k <;> simp [answerOf?, Grammar.answerWord]

/-- An attribute is read where its key stands with a value of the kind that goes with the key. -/
theorem trait_eq_ok_iff {t : Trait} : trait ts = .ok t rest ↔ Spells t.leaves ts rest := by
  rw [trait, bind_eq_ok_iff]
  simp only [choice_eq_ok_iff TraitKey.ofKeyword?_eq_some_iff, mark_bind_eq_ok_iff]
  constructor
  · rintro ⟨key, mid, hkey, last, hassign, hvalue⟩
    cases key <;>
      simp only [bind_eq_ok_iff, number_eq_ok_iff, pure_eq_ok_iff,
        choice_eq_ok_iff heightOf?_eq_some_iff, choice_eq_ok_iff shapeOf?_eq_some_iff,
        choice_eq_ok_iff answerOf?_eq_some_iff] at hvalue <;>
      obtain ⟨a, _, hvalue, rfl, rfl⟩ := hvalue <;>
      exact spells_cons.mpr ⟨mid, hkey, spells_cons.mpr ⟨last, hassign, hvalue⟩⟩
  · intro h
    cases t <;>
      obtain ⟨mid, hkey, h⟩ := spells_cons.mp h <;>
      obtain ⟨last, hassign, hvalue⟩ := spells_cons.mp h
    · exact ⟨.damage, mid, hkey, last, hassign, bind_ok (number_eq_ok_iff.mpr hvalue) rfl⟩
    · exact ⟨.cost, mid, hkey, last, hassign, bind_ok (number_eq_ok_iff.mpr hvalue) rfl⟩
    · exact ⟨.height, mid, hkey, last, hassign,
        bind_ok ((choice_eq_ok_iff heightOf?_eq_some_iff).mpr hvalue) rfl⟩
    · exact ⟨.shape, mid, hkey, last, hassign,
        bind_ok ((choice_eq_ok_iff shapeOf?_eq_some_iff).mpr hvalue) rfl⟩
    · exact ⟨.spinning, mid, hkey, last, hassign,
        bind_ok ((choice_eq_ok_iff answerOf?_eq_some_iff).mpr hvalue) rfl⟩

/-- Applied one after the other, the attributes of a strike leave the last value of each kind, and
the default where there is none. -/
theorem foldl_apply (kind : ActionKind) (s : Strike) :
    s.traits.foldl Trait.apply { kind, name := s.name, span := s.span } = s.toAction kind := by
  obtain ⟨name, span, traits⟩ := s
  -- the last attribute of a kind decides, so they are taken off at the end
  induction traits using List.reverseRecOn with
  | nil => rfl
  | append_singleton traits t ih =>
    rw [List.foldl_append, ih]
    cases t <;> simp [Strike.toAction, Strike.last?, Trait.apply, Trait.damage?, Trait.cost?,
      Trait.height?, Trait.shape?, Trait.spinning?]

theorem reads_trait : Reads trait (fun _ => True) Trait.leaves id :=
  reads_id (by simp [trait_eq_ok_iff])

/-- Strikes are read as the trees of the grammar, and answered with the last value that is set of
each kind. -/
theorem reads_strike {kind : ActionKind} :
    Reads (strike kind) Strike.Written Strike.leaves (Strike.toAction kind) := by
  intro ts rest a
  rw [strike, identAt_bind_eq_ok_iff]
  simp only [mark_bind_eq_ok_iff, commaSeparated_bind_eq_ok_iff reads_trait (m := .closeParen)
    (by decide), pure_eq_ok_iff, List.map_id]
  constructor
  · rintro ⟨name, span, tail, hname, start, hopen, traits, _, ⟨⟨hne, -⟩, hleaves⟩, rfl, rfl⟩
    have hbehind := spells_cons.mpr ⟨start, hopen, hleaves⟩
    have hall := spells_cons.mpr ⟨tail, hname, hbehind⟩
    exact ⟨⟨name, span, traits⟩, ⟨hne, hall⟩, (foldl_apply kind ⟨name, span, traits⟩).symm⟩
  · rintro ⟨⟨name, span, traits⟩, ⟨hne, hleaves⟩, rfl⟩
    obtain ⟨tail, hname, hleaves⟩ := spells_cons.mp hleaves
    obtain ⟨start, hopen, hleaves⟩ := spells_cons.mp hleaves
    exact ⟨name, span, tail, hname, start, hopen, traits, rest,
      ⟨⟨hne, fun _ _ => trivial⟩, hleaves⟩, foldl_apply kind ⟨name, span, traits⟩, rfl⟩

private theorem strikes_eq_ok_iff {kind : ActionKind} {as : List Action} :
    (commaSeparated (strike kind) >>= fun as => mark .semicolon >>= fun _ => pure as) ts
        = .ok as rest ↔
      ∃ strikes, (OneOrMore Strike.Written strikes ∧
        Spells (separated Strike.leaves strikes ++ [.mark .semicolon]) ts rest) ∧
          strikes.map (Strike.toAction kind) = as := by
  rw [commaSeparated_bind_eq_ok_iff reads_strike (by decide)]
  constructor
  · rintro ⟨strikes, _, hread, hpure⟩
    obtain ⟨rfl, rfl⟩ := pure_eq_ok_iff.mp hpure
    exact ⟨strikes, hread, rfl⟩
  · rintro ⟨strikes, hread, rfl⟩
    exact ⟨strikes, rest, hread, rfl⟩

theorem actionKindOf?_eq_some_iff (k : Keyword) (kind : ActionKind) :
    actionKindOf? k = some kind ↔ k = kind.word := by
  cases kind <;> cases k <;> simp [actionKindOf?, ActionKind.word]

/-- Lines of actions are read as the trees of the grammar. Strikes and kicks have attributes, and a
block has a name only. -/
theorem reads_action : Reads action ActionLine.Written ActionLine.leaves ActionLine.actions := by
  intro ts rest as
  rw [action, bind_eq_ok_iff]
  simp only [choice_eq_ok_iff actionKindOf?_eq_some_iff, mark_bind_eq_ok_iff]
  constructor
  · rintro ⟨kind, mid, hkind, last, hcolon, hread⟩
    cases kind with
    | strike =>
      obtain ⟨strikes, ⟨hwritten, hleaves⟩, rfl⟩ := strikes_eq_ok_iff.mp hread
      have hall := spells_cons.mpr ⟨mid, hkind, spells_cons.mpr ⟨last, hcolon, hleaves⟩⟩
      exact ⟨.golpe strikes, ⟨hwritten, hall⟩, rfl⟩
    | kick =>
      obtain ⟨strikes, ⟨hwritten, hleaves⟩, rfl⟩ := strikes_eq_ok_iff.mp hread
      have hall := spells_cons.mpr ⟨mid, hkind, spells_cons.mpr ⟨last, hcolon, hleaves⟩⟩
      exact ⟨.patada strikes, ⟨hwritten, hall⟩, rfl⟩
    | block =>
      rw [if_pos rfl] at hread
      obtain ⟨name, span, stop, hname, hread⟩ := identAt_bind_eq_ok_iff.mp hread
      obtain ⟨_, hsemicolon, hpure⟩ := mark_bind_eq_ok_iff.mp hread
      obtain ⟨rfl, rfl⟩ := pure_eq_ok_iff.mp hpure
      have hleaves := spells_cons.mpr ⟨stop, hname, hsemicolon⟩
      have hall := spells_cons.mpr ⟨mid, hkind, spells_cons.mpr ⟨last, hcolon, hleaves⟩⟩
      exact ⟨.bloqueo name span, ⟨trivial, hall⟩, rfl⟩
  · rintro ⟨line, ⟨hwritten, hleaves⟩, rfl⟩
    cases line with
    | golpe strikes =>
      obtain ⟨mid, hkind, hleaves⟩ := spells_cons.mp hleaves
      obtain ⟨last, hcolon, hleaves⟩ := spells_cons.mp hleaves
      exact ⟨.strike, mid, hkind, last, hcolon,
        strikes_eq_ok_iff.mpr ⟨strikes, ⟨hwritten, hleaves⟩, rfl⟩⟩
    | patada strikes =>
      obtain ⟨mid, hkind, hleaves⟩ := spells_cons.mp hleaves
      obtain ⟨last, hcolon, hleaves⟩ := spells_cons.mp hleaves
      exact ⟨.kick, mid, hkind, last, hcolon,
        strikes_eq_ok_iff.mpr ⟨strikes, ⟨hwritten, hleaves⟩, rfl⟩⟩
    | bloqueo name span =>
      obtain ⟨mid, hkind, hleaves⟩ := spells_cons.mp hleaves
      obtain ⟨last, hcolon, hleaves⟩ := spells_cons.mp hleaves
      obtain ⟨stop, hname, hsemicolon⟩ := spells_cons.mp hleaves
      refine ⟨.block, mid, hkind, last, hcolon, ?_⟩
      rw [if_pos rfl]
      exact identAt_bind_eq_ok_iff.mpr
        ⟨name, span, stop, hname, mark_bind_eq_ok_iff.mpr ⟨rest, hsemicolon, rfl⟩⟩

/-! ### Blocks of actions and combos -/

theorem avoids_action : Avoids Bounds ActionLine.Written ActionLine.leaves := by
  intro line _
  cases line <;> exact ⟨_, _, rfl, by simp [Leaf.word]⟩

/-- One or more lines of actions between braces, whose actions are put in one list. -/
theorem actions_eq_ok_iff {as : List Action} :
    actions ts = .ok as rest ↔
      ∃ lines, (OneOrMore ActionLine.Written lines ∧ Spells (.word .acciones ::
        Grammar.braced (lines.flatMap ActionLine.leaves)) ts rest) ∧
          lines.flatMap ActionLine.actions = as := by
  rw [actions, word_bind_eq_ok_iff]
  simp only [bind_eq_ok_iff, braced_eq_ok_iff reads_action avoids_action, pure_eq_ok_iff]
  constructor
  · rintro ⟨mid, hword, _, _, ⟨lines, ⟨hwritten, hleaves⟩, rfl⟩, rfl, rfl⟩
    exact ⟨lines, ⟨hwritten, spells_cons.mpr ⟨mid, hword, hleaves⟩⟩, List.flatMap_def⟩
  · rintro ⟨lines, ⟨hwritten, hleaves⟩, rfl⟩
    obtain ⟨mid, hword, hleaves⟩ := spells_cons.mp hleaves
    exact ⟨mid, hword, _, _, ⟨lines, ⟨hwritten, hleaves⟩, rfl⟩, List.flatMap_def.symm, rfl⟩

private theorem reads_step {what : String} :
    Reads (Prod.fst <$> ident what) (fun _ => True) (fun step => [.ident step]) id := by
  refine reads_id fun {ts rest step} => ?_
  rw [map_eq_ok_iff, ← exists_spells_identAt]
  simp [ident_eq_ok_iff]

theorem combo_eq_ok_iff {c : Combo} :
    combo ts = .ok c rest ↔ c.Written ∧ Spells c.leaves ts rest := by
  obtain ⟨name, cost, steps, span⟩ := c
  rw [combo]
  simp only [identAt_bind_eq_ok_iff, word_bind_eq_ok_iff, mark_bind_eq_ok_iff,
    number_bind_eq_ok_iff, commaSeparated_bind_eq_ok_iff reads_step (m := .closeBrace) (by decide),
    pure_eq_ok_iff, Combo.leaves, Combo.Written, Combo.mk.injEq, List.cons_append, List.nil_append,
    Grammar.braced, OneOrMore, List.map_id, spells_cons_cons, spells_cons_append]
  constructor
  · rintro ⟨_, _, mid₁, h₁, mid₂, h₂, mid₃, h₃, mid₄, h₄, _, mid₅, h₅, mid₆, h₆, mid₇, h₇, steps, _,
      ⟨⟨hne, -⟩, h₈⟩, ⟨rfl, rfl, rfl, rfl⟩, rfl⟩
    exact ⟨hne, mid₁, h₁, mid₂, h₂, mid₃, h₃, mid₄, h₄, mid₅, h₅, mid₆, h₆, mid₇, h₇, h₈⟩
  · rintro ⟨hne, mid₁, h₁, mid₂, h₂, mid₃, h₃, mid₄, h₄, mid₅, h₅, mid₆, h₆, mid₇, h₇, h₈⟩
    exact ⟨name, span, mid₁, h₁, mid₂, h₂, mid₃, h₃, mid₄, h₄, cost, mid₅, h₅, mid₆, h₆, mid₇, h₇,
      steps, rest, ⟨⟨hne, fun _ _ => trivial⟩, h₈⟩, ⟨rfl, rfl, rfl, rfl⟩, rfl⟩

theorem reads_combo : Reads combo Combo.Written Combo.leaves id :=
  reads_id combo_eq_ok_iff

theorem avoids_combo : Avoids Bounds Combo.Written Combo.leaves := by
  intro c _
  exact ⟨_, _, rfl, by simp [Leaf.identAt]⟩

theorem combos_eq_ok_iff {cs : List Combo} :
    combos ts = .ok cs rest ↔ OneOrMore Combo.Written cs ∧
      Spells (.word .combos :: Grammar.braced (cs.flatMap Combo.leaves)) ts rest := by
  rw [combos, word_bind_eq_ok_iff]
  simp only [braced_eq_ok_iff reads_combo avoids_combo, List.map_id]
  constructor
  · rintro ⟨mid, hword, _, ⟨hwritten, hleaves⟩, rfl⟩
    exact ⟨hwritten, spells_cons.mpr ⟨mid, hword, hleaves⟩⟩
  · rintro ⟨hwritten, hleaves⟩
    obtain ⟨mid, hword, hleaves⟩ := spells_cons.mp hleaves
    exact ⟨mid, hword, cs, ⟨hwritten, hleaves⟩, rfl⟩

/-! ### Fighters -/

theorem stats_eq_ok_iff {hp st : Quantity} :
    stats ts = .ok (hp, st) rest ↔ Spells (Definition.statsLeaves hp st) ts rest := by
  simp only [stats, word_bind_eq_ok_iff, mark_bind_eq_ok_iff, number_bind_eq_ok_iff, pure_eq_ok_iff,
    Definition.statsLeaves, spells_cons_cons, Prod.mk.injEq, existsAndEq, exists_and_left, and_true]

end Parser

namespace Grammar.Definition

/-- The fighter that a definition declares, unless it declares a name twice. -/
def declare (d : Definition) : Except Inconsistency Fighter := do
  let armed ← d.actions.foldlM Fighter.declareAction (.bare d.name d.hp d.stamina d.span)
  d.combos.foldlM Fighter.declareCombo armed

theorem declare_eq_ok_iff_exists {d : Definition} {f : Fighter} :
    d.declare = .ok f ↔
      ∃ armed, d.actions.foldlM Fighter.declareAction (.bare d.name d.hp d.stamina d.span)
          = .ok armed ∧ d.combos.foldlM Fighter.declareCombo armed = .ok f := by
  rw [declare]
  cases d.actions.foldlM Fighter.declareAction (.bare d.name d.hp d.stamina d.span) <;>
    simp [bind, Except.bind]

end Grammar.Definition

namespace Parser

/-- A fighter is read as its definition, if the definition declares no name twice. -/
theorem fighter_eq_ok_iff {f : Fighter} :
    fighter ts = .ok f rest ↔
      ∃ d : Definition, (d.Written ∧ Spells d.leaves ts rest) ∧ d.declare = .ok f := by
  rw [fighter]
  simp only [identAt_bind_eq_ok_iff, word_bind_eq_ok_iff, mark_bind_eq_ok_iff, pure_eq_ok_iff,
    bind_eq_ok_iff (p := stats), Prod.exists, stats_eq_ok_iff,
    bind_eq_ok_iff (p := actions), actions_eq_ok_iff,
    bind_eq_ok_iff (p := combos), combos_eq_ok_iff,
    bind_eq_ok_iff (p := consistent _), consistent_eq_ok_iff]
  constructor
  · rintro ⟨mid₁, h₁, name, span, mid₂, h₂, mid₃, h₃, hp, stamina, mid₄, h₄, _, mid₅,
      ⟨lines, ⟨hlines, h₅⟩, rfl⟩, armed, _, ⟨harmed, rfl⟩, combos, mid₆, ⟨hcombos, h₆⟩, full, _,
      ⟨hfull, rfl⟩, _, h₇, rfl, rfl⟩
    let d : Definition := ⟨name, span, hp, stamina, lines, combos⟩
    have hdeclare : d.declare = .ok full :=
      Definition.declare_eq_ok_iff_exists.mpr ⟨armed, harmed, hfull⟩
    have hitems := spells_append.mpr ⟨mid₅, spells_append.mpr ⟨mid₄, h₄, h₅⟩, h₆⟩
    have hbraced := spells_cons.mpr ⟨mid₃, h₃, spells_append.mpr ⟨mid₆, hitems, h₇⟩⟩
    have hleaves := spells_cons.mpr ⟨mid₁, h₁, spells_cons.mpr ⟨mid₂, h₂, hbraced⟩⟩
    exact ⟨d, ⟨⟨hlines, hcombos⟩, hleaves⟩, hdeclare⟩
  · rintro ⟨⟨name, span, hp, stamina, lines, combos⟩, ⟨⟨hlines, hcombos⟩, hleaves⟩, hdeclare⟩
    obtain ⟨armed, harmed, hfull⟩ := Definition.declare_eq_ok_iff_exists.mp hdeclare
    obtain ⟨mid₁, h₁, hleaves⟩ := spells_cons.mp hleaves
    obtain ⟨mid₂, h₂, hleaves⟩ := spells_cons.mp hleaves
    obtain ⟨mid₃, h₃, hleaves⟩ := spells_cons.mp hleaves
    obtain ⟨mid₆, hleaves, h₇⟩ := spells_append.mp hleaves
    obtain ⟨mid₅, hleaves, h₆⟩ := spells_append.mp hleaves
    obtain ⟨mid₄, h₄, h₅⟩ := spells_append.mp hleaves
    exact ⟨mid₁, h₁, name, span, mid₂, h₂, mid₃, h₃, hp, stamina, mid₄, h₄, _, mid₅,
      ⟨lines, ⟨hlines, h₅⟩, rfl⟩, armed, mid₅, ⟨harmed, rfl⟩, combos, mid₆, ⟨hcombos, h₆⟩, f, mid₆,
      ⟨hfull, rfl⟩, rest, h₇, rfl, rfl⟩

end Parser

namespace Grammar.Definition

/-- A definition denotes one fighter at most. -/
theorem Denotes.unique {d : Definition} {f g : Fighter} (hf : d.Denotes f) (hg : d.Denotes g) :
    f = g := by
  obtain ⟨name, hpMax, staminaMax, actions, combos, span⟩ := f
  obtain ⟨rfl, rfl, rfl, rfl, hactions, hcombos⟩ := hf
  obtain ⟨hname, hspan, hhp, hstamina, hactions', hcombos'⟩ := hg
  cases g
  cases hactions.unique hactions'
  cases hcombos.unique hcombos'
  simp_all

/-- The fighter with all that a definition declares. -/
def fighter (d : Definition) : Fighter :=
  ⟨d.name, d.hp, d.stamina, Table.empty.insertAll Action.name d.actions,
    Table.empty.insertAll Combo.name d.combos, d.span⟩

/-- A definition where no name comes twice denotes the fighter with all that it declares. -/
theorem denotes_fighter {d : Definition} (hactions : (d.actions.map Action.name).Nodup)
    (hcombos : (d.combos.map Combo.name).Nodup) : d.Denotes d.fighter where
  name := rfl
  span := rfl
  hpMax := rfl
  staminaMax := rfl
  actions := Table.Holds.empty.insertAll hactions fun _ _ => rfl
  combos := Table.Holds.empty.insertAll hcombos fun _ _ => rfl

/-- A definition that declares no name twice declares the fighter it denotes, and no other does. -/
theorem declare_eq_ok_iff {d : Definition} {f : Fighter} :
    d.declare = .ok f ↔ ((d.actions.map Action.name).Nodup ∧ (d.combos.map Combo.name).Nodup) ∧
      d.Denotes f := by
  rw [declare_eq_ok_iff_exists]
  simp only [Fighter.declareActions_eq_ok_iff, Fighter.declareCombos_eq_ok_iff]
  constructor
  · rintro ⟨_, ⟨⟨hactions, -⟩, rfl⟩, ⟨hcombos, -⟩, rfl⟩
    exact ⟨⟨hactions, hcombos⟩, denotes_fighter hactions hcombos⟩
  · rintro ⟨⟨hactions, hcombos⟩, hf⟩
    refine ⟨_, ⟨⟨hactions, fun _ _ => rfl⟩, rfl⟩, ⟨hcombos, fun _ _ => rfl⟩, ?_⟩
    exact (denotes_fighter hactions hcombos).unique hf

end Grammar.Definition

end Lucha
