import Lucha.Proofs.Language

/-!
# Printable programs

A program can be built in other ways than by reading it, and then it need not be one that can be
written down. `Program.Printable` says what a program needs for that: its names are names of the
language and the keys of its tables, nothing is empty that the grammar wants an item in, a block has
no values, and it can be fought. What is read is printable (`Program.printable_of_parse`).
-/

namespace Lucha

open Grammar (ActionLine Definition OneOrMore Strike Tree)

/-- An action that can be written down. -/
structure Action.Printable (a : Action) : Prop where
  name : IsName a.name
  block : a.kind = .block →
    a.damage = 0 ∧ a.cost = 0 ∧ a.height = none ∧ a.shape = none ∧ a.spinning = false

/-- A combo that can be written down. -/
structure Combo.Printable (c : Combo) : Prop where
  name : IsName c.name
  written : c.Written
  steps : ∀ step ∈ c.steps, IsName step

/-- A fighter that can be written down. -/
structure Fighter.Printable (f : Fighter) : Prop where
  name : IsName f.name
  keyed : f.Keyed
  actions : OneOrMore Action.Printable f.actions.values
  combos : OneOrMore Combo.Printable f.combos.values

/-- A script that can be written down. -/
structure Script.Printable (s : Script) : Prop where
  fighter : IsName s.fighter
  written : s.Written
  uses : ∀ use ∈ s.body.uses, IsName use.1

/-- A program that can be written down. -/
structure Program.Printable (p : Program) : Prop where
  keys : p.fighters.Keyed Fighter.name
  fighters : ∀ f ∈ p.fighters.values, f.Printable
  fighterA : IsName p.matchup.fighterA
  fighterB : IsName p.matchup.fighterB
  starter : IsName p.matchup.starter
  scripts : OneOrMore Script.Printable p.scripts
  fightable : p.inconsistency? = none

/-! ### Deciding -/

instance Grammar.decidableOneOrMore {α : Type} (P : α → Prop) [DecidablePred P] (items : List α) :
    Decidable (OneOrMore P items) :=
  inferInstanceAs (Decidable (items ≠ [] ∧ ∀ item ∈ items, P item))

instance (c : Combo) : Decidable c.Written :=
  inferInstanceAs (Decidable (c.steps ≠ []))

instance Block.decidableWritten : ∀ b : Block, Decidable b.Written
  | done => .isTrue trivial
  | use _ _ next => decidableWritten next
  | choose _ yes no next =>
    have := decidableWritten yes
    have := decidableWritten no
    have := decidableWritten next
    inferInstanceAs (Decidable (yes ≠ done ∧ yes.Written ∧ no.Written ∧ next.Written))

instance (s : Script) : Decidable s.Written :=
  inferInstanceAs (Decidable (_ ∧ _ ∧ _))

instance (a : Action) : Decidable a.Printable :=
  decidable_of_iff (IsName a.name ∧ (a.kind = .block →
      a.damage = 0 ∧ a.cost = 0 ∧ a.height = none ∧ a.shape = none ∧ a.spinning = false))
    ⟨fun h => ⟨h.1, h.2⟩, fun h => ⟨h.name, h.block⟩⟩

instance (c : Combo) : Decidable c.Printable :=
  decidable_of_iff (IsName c.name ∧ c.Written ∧ ∀ step ∈ c.steps, IsName step)
    ⟨fun h => ⟨h.1, h.2.1, h.2.2⟩, fun h => ⟨h.name, h.written, h.steps⟩⟩

instance (f : Fighter) : Decidable f.Printable :=
  decidable_of_iff (IsName f.name ∧ f.Keyed ∧ OneOrMore Action.Printable f.actions.values ∧
      OneOrMore Combo.Printable f.combos.values)
    ⟨fun h => ⟨h.1, h.2.1, h.2.2.1, h.2.2.2⟩, fun h => ⟨h.name, h.keyed, h.actions, h.combos⟩⟩

instance (s : Script) : Decidable s.Printable :=
  decidable_of_iff (IsName s.fighter ∧ s.Written ∧ ∀ use ∈ s.body.uses, IsName use.1)
    ⟨fun h => ⟨h.1, h.2.1, h.2.2⟩, fun h => ⟨h.fighter, h.written, h.uses⟩⟩

instance (p : Program) : Decidable p.Printable :=
  decidable_of_iff (p.fighters.Keyed Fighter.name ∧ (∀ f ∈ p.fighters.values, f.Printable) ∧
      (IsName p.matchup.fighterA ∧ IsName p.matchup.fighterB ∧ IsName p.matchup.starter) ∧
      OneOrMore Script.Printable p.scripts ∧ p.inconsistency? = none)
    ⟨fun h => ⟨h.1, h.2.1, h.2.2.1.1, h.2.2.1.2.1, h.2.2.1.2.2, h.2.2.2.1, h.2.2.2.2⟩,
      fun h => ⟨h.keys, h.fighters, ⟨h.fighterA, h.fighterB, h.starter⟩, h.scripts, h.fightable⟩⟩

/-! ### A program -/

/-- A fighter with a strike, a block and a combo. -/
def Fighter.ana : Fighter where
  name := "Ana"
  hpMax := 20
  staminaMax := 10
  actions := ⟨[("guardia", ⟨.block, "guardia", 0, 0, none, none, false, .none⟩),
    ("jab", ⟨.strike, "jab", 4, 3, some .high, none, false, .none⟩)], by decide⟩
  combos := ⟨[("doble", ⟨"doble", 4, ["jab", "jab"], .none⟩)], by decide⟩
  span := .none

/-- A fighter with a kick and a combo that it cannot pay. -/
def Fighter.beto : Fighter where
  name := "Beto"
  hpMax := 15
  staminaMax := 12
  actions := ⟨[("giro", ⟨.kick, "giro", 6, 5, none, some .lateral, true, .none⟩)], by decide⟩
  combos := ⟨[("ronda", ⟨"ronda", 20, ["giro"], .none⟩)], by decide⟩
  span := .none

/-- A program where one fighter blocks when its hit points run out. -/
def Program.duel : Program where
  fighters := ⟨[("Ana", .ana), ("Beto", .beto)], by decide⟩
  matchup := ⟨"Ana", "Beto", "Beto", 3, .none⟩
  scripts := [
    ⟨"Ana", .choose ⟨.actor, .hp, .greater, 10⟩ (.use "doble" .none .done)
      (.use "guardia" .none .done) .done, .none⟩,
    ⟨"Beto", .use "ronda" .none .done, .none⟩]

/-! ### What is read is printable -/

/-- The kinds of some leaves are legible. -/
def Leaf.AllLegible (ls : List Leaf) : Prop :=
  ∀ leaf ∈ ls, leaf.kind.Legible

namespace Leaf.AllLegible

theorem append_iff {ls ms : List Leaf} :
    AllLegible (ls ++ ms) ↔ AllLegible ls ∧ AllLegible ms :=
  List.forall_mem_append

theorem cons_iff {leaf : Leaf} {ls : List Leaf} :
    AllLegible (leaf :: ls) ↔ leaf.kind.Legible ∧ AllLegible ls :=
  List.forall_mem_cons

theorem flatMap_iff {α : Type} {leaves : α → List Leaf} {items : List α} :
    AllLegible (items.flatMap leaves) ↔ ∀ item ∈ items, AllLegible (leaves item) := by
  simp only [AllLegible, List.mem_flatMap]
  grind

/-- Items between commas are legible if the whole is. -/
theorem of_separated {α : Type} {leaves : α → List Leaf} {items : List α}
    (h : AllLegible (Grammar.separated leaves items)) :
    ∀ item ∈ items, AllLegible (leaves item) := by
  cases items with
  | nil => simp
  | cons first more =>
    rw [Grammar.separated, append_iff, flatMap_iff] at h
    refine List.forall_mem_cons.mpr ⟨h.1, fun item hitem => ?_⟩
    exact (cons_iff.mp (h.2 item hitem)).2

theorem of_braced {ls : List Leaf} (h : AllLegible (Grammar.braced ls)) : AllLegible ls :=
  (append_iff.mp (cons_iff.mp h).2).1

end Leaf.AllLegible

open Leaf (AllLegible)

/-- The leaves of a derivation are legible, because the tokens that the scan finds are. -/
theorem Grammar.Tree.Derives.allLegible {t : Tree} {source : String}
    (h : t.Derives (Program.tokensOf source)) : AllLegible t.leaves := by
  intro leaf hleaf
  have hkind : leaf.kind ∈ (Program.tokensOf source).map Token.kind :=
    h.derivesKinds.2 ▸ List.mem_map_of_mem hleaf
  obtain ⟨token, htoken, heq⟩ := List.mem_map.mp hkind
  rw [Program.tokensOf_eq] at htoken
  exact heq ▸ Scan.legible_of_mem_tokens htoken

/-- The actions of a legible line are printable: their names are names. -/
theorem Grammar.ActionLine.printable_of_legible {line : ActionLine} (h : AllLegible line.leaves) :
    ∀ a ∈ line.actions, a.Printable := by
  have hstrikes (kind : ActionKind) (hkind : kind ≠ .block) {strikes : List Strike}
      (hs : AllLegible (Grammar.separated Strike.leaves strikes)) :
      ∀ a ∈ strikes.map (Strike.toAction kind), a.Printable := by
    intro a ha
    obtain ⟨s, hmem, rfl⟩ := List.mem_map.mp ha
    exact ⟨(AllLegible.cons_iff.mp (hs.of_separated s hmem)).1, fun hblock => absurd hblock hkind⟩
  cases line with
  | bloqueo name span =>
    have hname : IsName name := h (.identAt name span) (by simp [leaves])
    simpa [actions] using Action.Printable.mk hname fun _ => ⟨rfl, rfl, rfl, rfl, rfl⟩
  | golpe strikes =>
    have hleaves := (AllLegible.cons_iff.mp (AllLegible.cons_iff.mp h).2).2
    exact hstrikes .strike (by decide) (AllLegible.append_iff.mp hleaves).1
  | patada strikes =>
    have hleaves := (AllLegible.cons_iff.mp (AllLegible.cons_iff.mp h).2).2
    exact hstrikes .kick (by decide) (AllLegible.append_iff.mp hleaves).1

theorem Combo.printable_of_legible {c : Combo} (hwritten : c.Written) (h : AllLegible c.leaves) :
    c.Printable := by
  obtain ⟨hhead, hsteps⟩ := AllLegible.append_iff.mp h
  refine ⟨(AllLegible.cons_iff.mp hhead).1, hwritten, fun step hstep => ?_⟩
  exact (AllLegible.cons_iff.mp (hsteps.of_braced.of_separated step hstep)).1

/-- What a legible block uses are names, by induction on the block. -/
theorem Block.isName_of_legible {b : Block} (h : AllLegible b.leaves) :
    ∀ use ∈ b.uses, IsName use.1 := by
  induction b with
  | done => exact fun use huse => nomatch huse
  | use name span next ih =>
    have hname : IsName name := h (.identAt name span) (by simp [leaves])
    have hnext : AllLegible next.leaves := fun leaf hleaf => h leaf (by simp [leaves, hleaf])
    exact List.forall_mem_cons.mpr ⟨hname, ih hnext⟩
  | choose condition yes no next hyes hno hnext =>
    have hyes' : AllLegible yes.leaves := fun leaf hleaf => h leaf (by
      simp [leaves, Grammar.braced, hleaf])
    have hno' : AllLegible no.leaves := fun leaf hleaf => h leaf (by
      -- the second block is written only if it is not empty, and it has a leaf
      have hne : no ≠ done := by
        rintro rfl
        cases hleaf
      simp [leaves, Grammar.braced, hne, hleaf])
    have hnext' : AllLegible next.leaves := fun leaf hleaf => h leaf (by
      simp [leaves, hleaf])
    rw [uses, List.forall_mem_append, List.forall_mem_append]
    exact ⟨hyes hyes', hno hno', hnext hnext'⟩

theorem Script.printable_of_legible {s : Script} (hwritten : s.Written)
    (h : AllLegible s.leaves) : s.Printable := by
  obtain ⟨-, h⟩ := AllLegible.cons_iff.mp h
  obtain ⟨hfighter, hbody⟩ := AllLegible.cons_iff.mp h
  exact ⟨hfighter, hwritten, Block.isName_of_legible hbody.of_braced⟩

theorem Table.Holds.oneOrMore_values {α : Type} {t : Table α} {key : α → String} {items : List α}
    (h : t.Holds key items) {P : α → Prop} (hitems : OneOrMore P items) :
    OneOrMore P t.values := by
  refine ⟨fun hnil => hitems.1 ?_, fun item hitem => hitems.2 item (h.values_perm.mem_iff.mp hitem)⟩
  exact (List.Perm.nil_eq (hnil ▸ h.values_perm)).symm

theorem Grammar.ActionLine.actions_ne_nil {line : ActionLine} (h : line.Written) :
    line.actions ≠ [] := by
  cases line with
  | bloqueo name span => exact List.cons_ne_nil _ _
  | _ strikes => exact fun hnil => h.1 (List.map_eq_nil_iff.mp hnil)

/-- The fighter that a legible definition denotes is printable. -/
theorem Grammar.Definition.Denotes.printable {d : Definition} {f : Fighter} (h : d.Denotes f)
    (hwritten : d.Written) (hlegible : AllLegible d.leaves) : f.Printable := by
  obtain ⟨-, hlegible⟩ := AllLegible.cons_iff.mp hlegible
  obtain ⟨hname, hlegible⟩ := AllLegible.cons_iff.mp hlegible
  obtain ⟨hlegible, hcombos⟩ := AllLegible.append_iff.mp hlegible.of_braced
  obtain ⟨-, hactions⟩ := AllLegible.append_iff.mp hlegible
  have hlines := AllLegible.flatMap_iff.mp (AllLegible.cons_iff.mp hactions).2.of_braced
  have hcombos := AllLegible.flatMap_iff.mp (AllLegible.cons_iff.mp hcombos).2.of_braced
  obtain ⟨⟨hne, hlinesWritten⟩, hnone, hcombosWritten⟩ := hwritten
  refine ⟨h.name ▸ hname, ⟨h.actions.keyed, h.combos.keyed⟩,
    h.actions.oneOrMore_values ⟨?_, ?_⟩, h.combos.oneOrMore_values ⟨hnone, ?_⟩⟩
  · obtain ⟨line, hline⟩ := List.exists_mem_of_ne_nil _ hne
    intro hnil
    exact ActionLine.actions_ne_nil (hlinesWritten line hline)
      (List.flatMap_eq_nil_iff.mp hnil line hline)
  · intro a ha
    obtain ⟨line, hline, ha⟩ := List.mem_flatMap.mp ha
    exact ActionLine.printable_of_legible (hlines line hline) a ha
  · exact fun c hc => Combo.printable_of_legible (hcombosWritten c hc) (hcombos c hc)

namespace Program

/-- What is printable stands under its own names. -/
theorem Printable.keyed {p : Program} (h : p.Printable) : p.Keyed :=
  ⟨h.keys, fun f hf => (h.fighters f hf).keyed⟩

/-- What is read is printable. -/
theorem printable_of_parse {source : String} {p : Program} (h : parse source = .ok p) :
    p.Printable := by
  obtain ⟨t, hderives, hconsistent, hdenotes⟩ := parse_eq_ok_iff.mp h
  obtain ⟨hdefinitions, hlegible⟩ := AllLegible.append_iff.mp hderives.allLegible
  obtain ⟨hmatchup, hscripts⟩ :=
    AllLegible.append_iff.mp (AllLegible.cons_iff.mp hlegible).2.of_braced
  have hdefinitions := AllLegible.flatMap_iff.mp hdefinitions
  have hscripts := AllLegible.flatMap_iff.mp (AllLegible.cons_iff.mp hscripts).2.of_braced
  obtain ⟨⟨-, hdefinitionsWritten⟩, hne, hscriptsWritten⟩ := hderives.1
  obtain ⟨fs, hfs, hheld⟩ := hdenotes.fighters
  have hsound : p.Sound := (Tree.assembles_iff.mpr ⟨hconsistent, hdenotes⟩).elim
    fun fs ⟨library, _, _, hassemble⟩ => (Program.assemble_eq_ok_iff.mp hassemble).2
  refine ⟨hheld.keyed, fun f hf => ?_, ?_, ?_, ?_, ?_, inconsistency?_eq_none_iff.mpr hsound⟩
  · have hmem := hheld.values_perm.mem_iff.mp hf
    obtain ⟨d, hd, hdf⟩ := exists_of_mem_left hfs.flip hmem
    exact hdf.printable (hdefinitionsWritten d hd) (hdefinitions d hd)
  · rw [hdenotes.matchup]
    exact hmatchup (.ident t.matchup.fighterA) (by simp [Matchup.leaves, Grammar.braced])
  · rw [hdenotes.matchup]
    exact hmatchup (.ident t.matchup.fighterB) (by simp [Matchup.leaves, Grammar.braced])
  · rw [hdenotes.matchup]
    exact hmatchup (.ident t.matchup.starter) (by simp [Matchup.leaves, Grammar.braced])
  · rw [hdenotes.scripts]
    exact ⟨hne, fun s hs => Script.printable_of_legible (hscriptsWritten s hs) (hscripts s hs)⟩

end Program

end Lucha
