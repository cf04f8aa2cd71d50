import Lucha.Proofs.Combat.Fallbacks
import Lucha.Proofs.Program.Warning
import Mathlib.Logic.Relation

/-!
# Cycles of fallbacks

A combo is abandoned for a cycle only if it is on the chain of fallbacks that leads to it. With what
the fallbacks say about the fighter (`Accounts`) this makes a way of first steps from the combo back
to it, all of them of combos that cost more than the stamina (`transGen_fallsTo_of_cycle`). Without
the guards nothing would ever come of such a combo (`Unguarded.not_on_loop`), and there is a warning
about it; so the guard ends nothing that would have ended by itself (`cycle_only_on_loop`).
-/

namespace Lucha

/-- A fighter with two combos that fall back to each other. -/
def Fighter.cleo : Fighter :=
  { Fighter.ana with
    combos := ⟨[("ida", ⟨"ida", 11, ["vuelta", "jab"], .none⟩),
      ("vuelta", ⟨"vuelta", 12, ["ida"], .none⟩)], by decide⟩ }

/-- A program where one fighter cannot pay for either of two combos that fall back to each other. -/
def Program.spiral : Program :=
  { Program.duel with
    fighters := ⟨[("Ana", .cleo), ("Beto", .beto)], by decide⟩
    scripts := [⟨"Ana", .use "ida" .none (.use "vuelta" .none .done), .none⟩] }

namespace Combat

/-! ### Loops of combos that cannot be paid for -/

/-- A combo that costs more than the stamina has a first step. -/
def FallsTo (f : Fighter) (stamina : Quantity) (combo step : String) : Prop :=
  ∃ c, f.combos.find? combo = some c ∧ stamina < c.cost ∧ c.firstStep? = some step

/-- A combo that cannot be paid for falls to its first step. -/
theorem FallsTo.firstStep? {f : Fighter} {stamina : Quantity} {combo step : String}
    (h : FallsTo f stamina combo step) : f.firstStep? combo = some step := by
  obtain ⟨c, hc, -, hfirst⟩ := h
  rw [Fighter.firstStep?, hc]
  exact hfirst

/-- Combos that fall back to each other are walked through. -/
theorem exists_walk_of_transGen {f : Fighter} {stamina : Quantity} {combo name : String}
    (h : Relation.TransGen (FallsTo f stamina) combo name) :
    ∃ count, f.walk (count + 1) combo = some name := by
  induction h with
  | single hstep => exact ⟨0, by rw [Fighter.walk, hstep.firstStep?]; rfl⟩
  | tail _ hstep ih =>
    obtain ⟨count, hwalk⟩ := ih
    refine ⟨count + 1, ?_⟩
    rw [Fighter.walk_add, hwalk, Option.bind_some, Fighter.walk, hstep.firstStep?]
    rfl

/-- The fallbacks of a chain, the latest first, are those of the fighter, and each leads to the
next. -/
def Unpaid (f : Fighter) (stamina : Quantity) : List Fallback → Prop
  | [] => True
  | b :: chain => FallsTo f stamina b.combo b.step ∧ (∀ last ∈ chain.head?, last.step = b.combo) ∧
      Unpaid f stamina chain

/-- From every combo of a chain first steps lead to where the chain leads. -/
theorem Unpaid.transGen {f : Fighter} {stamina : Quantity} {b other : Fallback}
    {chain : List Fallback} (h : Unpaid f stamina (b :: chain)) (hmem : other ∈ b :: chain) :
    Relation.TransGen (FallsTo f stamina) other.combo b.step := by
  induction chain generalizing b with
  | nil =>
    obtain rfl := List.mem_singleton.mp hmem
    exact .single h.1
  | cons last chain ih =>
    obtain ⟨hstep, hlast, hchain⟩ := h
    obtain rfl | hmem := List.mem_cons.mp hmem
    · exact .single hstep
    · exact (hlast last rfl ▸ ih hchain hmem).tail hstep

/-- A combo is abandoned for a cycle only where first steps lead from it back to it through combos
that all cost more than the stamina. -/
theorem transGen_fallsTo_of_cycle {f : Fighter} {target : String} {s : Standing}
    {chain : List Fallback} {earlier later : List Deed} {combo : String}
    (hlinked : Linked chain (earlier ++ .abortCombo combo .cycle :: later))
    (haccounts : Accounts f target s (earlier ++ .abortCombo combo .cycle :: later))
    (hchain : Unpaid f (s f.name).stamina chain) :
    Relation.TransGen (FallsTo f ((s.afterDeeds f.name earlier) f.name).stamina) combo combo := by
  induction earlier generalizing s chain with
  | nil =>
    generalize hdeed : Deed.abortCombo combo .cycle = deed at hlinked
    cases hlinked with
    | fallBack => cases hdeed
    | other _ hlast hcycle =>
      obtain ⟨b, hmem, rfl⟩ := hcycle combo hdeed.symm
      obtain ⟨last, chain, rfl⟩ := List.exists_cons_of_ne_nil (List.ne_nil_of_mem hmem)
      have hstep : last.step = b.combo := Option.some.inj (hdeed ▸ hlast last rfl).symm
      exact hstep ▸ hchain.transGen hmem
  | cons deed earlier ih =>
    obtain ⟨hdeed, haccounts⟩ := haccounts
    cases hlinked with
    | fallBack hlast hnew hlinked =>
      obtain ⟨⟨c, hc, hcost, hfirst⟩, hstamina, hlt⟩ := hdeed
      refine ih hlinked haccounts ⟨⟨c, hc, ?_, hfirst⟩, hlast, hchain⟩
      exact hcost ▸ hstamina ▸ hlt
    | other _ _ _ hlinked => exact ih hlinked haccounts trivial

/-! ### Without the guards -/

section

variable (f : Fighter) (target : String)

mutual

/-- The deeds that come of a name where no combo is abandoned, however deep it is and however often
it falls back. -/
inductive Unguarded : String → Standing → List Deed → Prop
  | paid {name : String} {s : Standing} {c : Combo} {deeds : List Deed}
      (hc : f.combos.find? name = some c) (hcost : c.cost ≤ (s f.name).stamina)
      (hsteps : UnguardedAll c.steps (s.pay f.name c.cost) deeds) :
      Unguarded name s (s.execute f.name c :: deeds)
  | fallsBack {name : String} {s : Standing} {c : Combo} {first : String} {deeds : List Deed}
      (hc : f.combos.find? name = some c) (hcost : (s f.name).stamina < c.cost)
      (hfirst : c.firstStep? = some first) (hstep : Unguarded first s deeds) :
      Unguarded name s (s.fallBack f.name c first :: deeds)
  | action {name : String} {s : Standing} {a : Action} (ha : Offers f name a) :
      Unguarded name s [s.attempt f.name target a]
  | unknown {name : String} {s : Standing} (hc : f.combos.find? name = none)
      (ha : f.actions.find? name = none) : Unguarded name s [.failName name]

/-- The deeds that come of some names, one after the other, where no combo is abandoned. -/
inductive UnguardedAll : List String → Standing → List Deed → Prop
  | nil {s : Standing} : UnguardedAll [] s []
  | cons {name : String} {names : List String} {s : Standing} {deeds more : List Deed}
      (hname : Unguarded name s deeds)
      (hnames : UnguardedAll names (s.afterDeeds f.name deeds) more) :
      UnguardedAll (name :: names) s (deeds ++ more)

end

/-- The deeds that come of a script where no combo is abandoned. -/
inductive UnguardedScript : Block → Standing → List Deed → Prop
  | done {s : Standing} : UnguardedScript .done s []
  | use {name : String} {span : Span} {next : Block} {s : Standing} {deeds more : List Deed}
      (hname : Unguarded f target name s deeds)
      (hnext : UnguardedScript next (s.afterDeeds f.name deeds) more) :
      UnguardedScript (.use name span next) s (deeds ++ more)
  | choose {condition : Condition} {yes no next : Block} {s : Standing} {deeds more : List Deed}
      (hchosen : UnguardedScript (if s.satisfies f.name target condition then yes else no) s deeds)
      (hnext : UnguardedScript next (s.afterDeeds f.name deeds) more) :
      UnguardedScript (.choose condition yes no next) s (deeds ++ more)

end

section

variable {f : Fighter} {target : String} {limit : Nat}

mutual

/-- Where no combo is abandoned, the guards make no difference to what comes of a name. -/
theorem Resolves.unguarded {depth : Nat} {combos : List String} {name : String} {s : Standing}
    {deeds : List Deed} (h : Resolves f target limit depth combos name s deeds)
    (hnone : ∀ combo reason, .abortCombo combo reason ∉ deeds) :
    Unguarded f target name s deeds := by
  match h with
  | .tooDeep _ _ => exact absurd List.mem_cons_self (hnone _ _)
  | .paid hc _ hcost hsteps =>
    exact .paid hc hcost (hsteps.unguarded fun combo reason hmem =>
      hnone combo reason (List.mem_cons_of_mem _ hmem))
  | .fallsBack hc _ hcost _ hfirst hstep =>
    exact .fallsBack hc hcost hfirst (hstep.unguarded fun combo reason hmem =>
      hnone combo reason (List.mem_cons_of_mem _ hmem))
  | .cycle _ _ _ _ => exact absurd List.mem_cons_self (hnone _ _)
  | .action ha => exact .action ha
  | .unknown hc ha => exact .unknown hc ha
termination_by structural h

/-- Where no combo is abandoned, the guards make no difference to what comes of some names. -/
theorem ResolvesAll.unguarded {depth : Nat} {names : List String} {s : Standing}
    {deeds : List Deed} (h : ResolvesAll f target limit depth names s deeds)
    (hnone : ∀ combo reason, .abortCombo combo reason ∉ deeds) :
    UnguardedAll f target names s deeds := by
  match h with
  | .nil => exact .nil
  | .cons hname hnames =>
    exact .cons
      (hname.unguarded fun combo reason hmem => hnone combo reason (List.mem_append_left _ hmem))
      (hnames.unguarded fun combo reason hmem => hnone combo reason (List.mem_append_right _ hmem))
termination_by structural h

end

/-- Where no combo is abandoned, the guards make no difference to what comes of a script. -/
theorem Follows.unguarded {b : Block} {s : Standing} {uses : List (String × List Deed)}
    (h : Follows f target limit b s uses)
    (hnone : ∀ combo reason, .abortCombo combo reason ∉ uses.flatMap Prod.snd) :
    UnguardedScript f target b s (uses.flatMap Prod.snd) := by
  induction h with
  | done => exact .done
  | use hname hnext ih =>
    rw [List.flatMap_cons] at hnone ⊢
    exact .use
      (hname.unguarded fun combo reason hmem => hnone combo reason (List.mem_append_left _ hmem))
      (ih fun combo reason hmem => hnone combo reason (List.mem_append_right _ hmem))
  | choose hchosen hnext ihChosen ihNext =>
    rw [List.flatMap_append] at hnone ⊢
    exact .choose
      (ihChosen fun combo reason hmem => hnone combo reason (List.mem_append_left _ hmem))
      (ihNext fun combo reason hmem => hnone combo reason (List.mem_append_right _ hmem))

/-- Nothing comes of a combo on a loop of combos that cannot be paid for: with the same stamina each
falls back to the next one for ever. -/
theorem Unguarded.not_on_loop {s : Standing} {combo : String} {deeds : List Deed}
    (h : Unguarded f target combo s deeds) :
    ¬ Relation.TransGen (FallsTo f (s f.name).stamina) combo combo := by
  intro hloop
  obtain ⟨step, ⟨c, hc, hcost, hfirst⟩, hback⟩ := Relation.TransGen.head'_iff.mp hloop
  match h with
  | .paid hc' hcost' _ =>
    cases hc.symm.trans hc'
    exact UInt32.not_lt.mpr hcost' hcost
  | .fallsBack hc' _ hfirst' hstep =>
    have hsame := Option.some.inj (hc'.symm.trans hc)
    have hnext := Option.some.inj (hfirst.symm.trans (hsame ▸ hfirst'))
    -- the next combo is on the loop as well
    exact hstep.not_on_loop (hnext ▸ .tail' hback ⟨c, hc, hcost, hfirst⟩)
  | .action ha => exact Option.some_ne_none c (hc.symm.trans ha.2)
  | .unknown hnone _ => exact Option.some_ne_none c (hc.symm.trans hnone)
termination_by structural h

end

/-! ### Cycles in a fight -/

/-- A combo of the fighter of a name is on a loop of combos that all cost more than the fighter's
stamina. Without the guards nothing would ever come of it, and there is a warning about it. -/
def OnLoop (p : Program) (s : Standing) (actor combo : String) : Prop :=
  ∃ f, p.fighters.find? actor = some f ∧
    Relation.TransGen (FallsTo f (s actor).stamina) combo combo ∧
      (∀ target deeds, ¬ Unguarded f target combo s deeds) ∧
        ∃ line, .fallbackCycle actor combo line ∈ p.warnings

/-- First steps that lead from a combo back to it make a loop, and there is a warning about it. -/
theorem onLoop_of_transGen {p : Program} (hkeyed : p.Keyed) {s : Standing} {f : Fighter}
    {actor combo : String} (hf : p.fighters.find? actor = some f)
    (hloop : Relation.TransGen (FallsTo f (s f.name).stamina) combo combo) :
    OnLoop p s actor combo := by
  obtain rfl := hkeyed.fighters hf
  obtain ⟨step, ⟨c, hc, -, -⟩, -⟩ := Relation.TransGen.head'_iff.mp hloop
  have hmem := p.fighters.find?_eq_some_iff_mem.mp hf
  have hname := (hkeyed.declared f (List.mem_map_of_mem (f := Prod.snd) hmem)).combos hc
  have hcycle : f.fallsBackIntoItself c.name = true := by
    rw [hname, Fighter.fallsBackIntoItself_iff]
    exact exists_walk_of_transGen hloop
  have hwarning := Program.fallbackCycle_mem_warnings hf hc hcycle
  rw [hname] at hwarning
  exact ⟨f, hf, hloop, fun _ _ h => h.not_on_loop hloop, _, hwarning⟩

/-- The deeds of a turn are linked, and they are justified. -/
theorem Bout.linked_of_turn? {b : Bout} (h : b.Fair) (hsteps : ∀ side, HasSteps (b.fighter side))
    {slot : Slot} {s : Standing} {turn : TakenTurn} (hturn : b.turn? slot s = some turn) :
    Linked [] turn.deeds ∧
      Accounts (b.fighter slot.side) (b.fighter slot.side.opposite).name s turn.deeds := by
  obtain ⟨script, -, hstructured⟩ := Bout.structured_of_turn? h hsteps hturn
  refine ⟨hstructured.linked (h.keyed slot.side), ?_⟩
  obtain ⟨block, -, rfl⟩ := Option.map_eq_some_iff.mp hturn
  exact Bout.accounts_turnEnd h slot s

/-- A turn goes as it would without the guards: its deeds are its start, if starts are recorded, and
what comes of the script of its fighter where no combo is abandoned. -/
def Unhindered (rules : Rules) (p : Program) (s : Standing) (turn : TakenTurn) : Prop :=
  ∃ side f script acted, turn.actor = p.matchup.combatant side ∧
    p.fighters.find? turn.actor = some f ∧ p.scriptFor? turn.actor = some script ∧
      turn.deeds = startDeeds rules turn.round ++ acted ∧
        UnguardedScript f (p.matchup.combatant side.opposite) script.body s acted

/-- A turn in which no combo is abandoned goes as it would without the guards. -/
theorem InTurns.unhindered {rules : Rules} {p : Program} {finished : Finished}
    {turns earlier later : List TakenTurn} {turn : TakenTurn}
    (h : InTurns rules p finished turns) (hsplit : turns = earlier ++ turn :: later)
    (hnone : ∀ combo reason, .abortCombo combo reason ∉ turn.deeds) :
    Unhindered rules p ((opening p).replay (earlier.flatMap TakenTurn.events)) turn := by
  obtain ⟨side, f, script, hactor, hf, hscript, acted, uses, hdeeds, huses, hacted⟩ :=
    h.structured earlier turn later hsplit
  refine ⟨side, f, script, acted, hactor, hf, hscript, hdeeds, ?_⟩
  rw [hdeeds] at hnone
  obtain ⟨-, rfl⟩ | ⟨done, next, rest, combo, -, -, rfl, -⟩ := hacted
  · exact huses.unguarded fun combo reason hmem =>
      hnone combo reason (List.mem_append_right _ hmem)
  · -- a turn that is broken off abandons a combo for want of budget
    exact absurd (List.mem_append_right _ List.mem_concat_self) (hnone combo .budget)

/-- A combo is abandoned for a cycle only if it is on a loop of combos that cannot be paid for, from
which without the guards nothing would come, and then there is a warning about it. A turn in which no
combo is abandoned goes as it would without the guards. The fallbacks of each turn make chains. -/
theorem cycle_only_on_loop (rules : Rules) (source : String) (p : Program)
    (h : Program.parse source = .ok p) :
    ∃ finished turns, run rules p = .ok finished ∧ InTurns rules p finished turns ∧
      (∀ earlier actor combo later,
        finished.log.events = earlier ++ .deed actor (.abortCombo combo .cycle) :: later →
          OnLoop p ((opening p).replay earlier) actor combo) ∧
      (∀ earlier turn later, turns = earlier ++ turn :: later →
        (∀ combo reason, .abortCombo combo reason ∉ turn.deeds) →
          Unhindered rules p ((opening p).replay (earlier.flatMap TakenTurn.events)) turn) ∧
      ∀ turn ∈ turns, InChains turn.deeds := by
  obtain ⟨finished, hrun, b, hstages, hfair, hfought, hsteps⟩ := exists_fought_of_parse rules h
  have hkeyed := (Program.printable_of_parse h).keyed
  have hturns := hfought.inTurns hstages hfair hkeyed.fighters hsteps
  refine ⟨finished, _, hrun, hturns, fun earlier actor combo later hsplit => ?_,
    fun _ _ _ => hturns.unhindered, fun turn hmem => ?_⟩
  · obtain ⟨slot, s, turn, done, todo, hturn, rfl, hdeeds, hreplay⟩ := hfought.exists_turn? hsplit
    obtain ⟨hlinked, haccounts⟩ := Bout.linked_of_turn? hfair hsteps hturn
    have hactor := (Bout.of_turn? hturn).2
    have hname := hactor.trans (hstages.name_eq hkeyed.fighters slot.side)
    rw [hdeeds] at hlinked haccounts
    have hloop := transGen_fallsTo_of_cycle hlinked haccounts trivial
    rw [hactor] at hreplay
    rw [← hreplay] at hloop
    exact onLoop_of_transGen hkeyed (hname ▸ hstages.fighter slot.side) hloop
  · obtain ⟨before, after, hsplit⟩ := List.append_of_mem hmem
    obtain ⟨slot, -, hturn⟩ := Bout.exists_turn?_of_play hsplit
    exact (Bout.linked_of_turn? hfair hsteps hturn).1.inChains

/-- A fighter that uses a combo on such a loop: the combo is abandoned, and the statement holds of the
fight. -/
theorem cycle_only_on_loop_spiral :
    (fight {} .spiral .beto .cleo).log.ofType .comboAborted ≠ [] ∧
      ∃ p, Program.parse (Program.spiral.render 2) = .ok p ∧
        ∃ finished turns, run {} p = .ok finished ∧ InTurns {} p finished turns ∧
          (∀ earlier actor combo later,
            finished.log.events = earlier ++ .deed actor (.abortCombo combo .cycle) :: later →
              OnLoop p ((opening p).replay earlier) actor combo) ∧
          (∀ earlier turn later, turns = earlier ++ turn :: later →
            (∀ combo reason, .abortCombo combo reason ∉ turn.deeds) →
              Unhindered {} p ((opening p).replay (earlier.flatMap TakenTurn.events)) turn) ∧
          ∀ turn ∈ turns, InChains turn.deeds := by
  have hprintable : Program.spiral.Printable := by decide +kernel
  obtain ⟨p, hp, -⟩ := hprintable.exists_parse_render 2
  exact ⟨by decide +kernel, p, hp, cycle_only_on_loop {} (Program.spiral.render 2) p hp⟩

end Combat

end Lucha
