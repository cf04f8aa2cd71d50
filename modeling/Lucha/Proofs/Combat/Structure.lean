import Lucha.Proofs.Combat.Moves
import Lucha.Proofs.Combat.Rounds
import Lucha.Proofs.Program.RoundTrip

/-!
# The structure of a turn

The deeds of a turn are what comes of the script of the fighter, or the beginning of it where the
budget of the turn breaks it off (`Structured`). The log of a fight holds nothing but such turns, in
the order of the schedule, and the end of the fight; they are all the turns that may come, or the
last one is a knockout (`turns_structured`).
-/

namespace Lucha.Combat

/-- The deeds of a turn: its start, if starts are recorded, and then what comes of each name that
the script yields, one after the other. The budget may break this off. -/
def Structured (rules : Rules) (f : Fighter) (target : String) (round : Nat) (script : Block)
    (s : Standing) (deeds : List Deed) : Prop :=
  ∃ acted uses,
    deeds = (if rules.recordTurnStarts then [.startTurn round] else []) ++ acted ∧
      Follows f target rules.comboDepth.toNat script s uses ∧
        (InBudget acted ∧ acted = uses.flatMap Prod.snd ∨
          BrokenOff (uses.flatMap Prod.snd) acted)

namespace Bout

variable {b : Bout} {s : Standing}

/-- A turn that is taken in a fair bout follows the script of its side from where it starts, with
the whole budget of the rules. -/
theorem structured_of_turn? (h : b.Fair) (hsteps : ∀ side, HasSteps (b.fighter side)) {slot : Slot}
    {turn : TakenTurn} (hturn : b.turn? slot s = some turn) :
    ∃ script, b.script slot.side = some script ∧
      Structured b.rules (b.fighter slot.side) (b.fighter slot.side.opposite).name turn.round script
        s turn.deeds := by
  obtain ⟨script, hscript, rfl⟩ := Option.map_eq_some_iff.mp hturn
  refine ⟨script, hscript, (Move.follow b.rules.comboDepth.toNat script (b.turnStart slot s)).1, ?_⟩
  have hdeeds : (b.turnEnd slot s).deeds
      = startDeeds b.rules slot.round
        ++ (Move.follow b.rules.comboDepth.toNat script (b.turnStart slot s)).1 := by
    rw [turnEnd_of_script hscript]
  obtain ⟨⟨uses, huses, heq⟩, hbudget, -⟩ | ⟨⟨whole, ⟨uses, huses, rfl⟩, hbroken⟩, -⟩ :=
    Move.meets_follow (h.distinct.ne slot.side) (h.keyed slot.side) (hsteps slot.side) script
      (b.tracks_turnStart slot s) rfl
  · exact ⟨uses, hdeeds, huses, .inl ⟨hbudget, heq⟩⟩
  · exact ⟨uses, hdeeds, huses, .inr hbroken⟩

end Bout

/-- The turns that may come in the fight of a program: in every round that of the starter and then
that of the other combatant, if they have a script. -/
def turnOrder (p : Program) : List (Nat × String) :=
  ((schedule 0 p.matchup.maxTurns.toNat).filter fun slot =>
    (p.scriptFor? (p.matchup.combatant slot.side)).isSome).map fun slot =>
      (slot.round, p.matchup.combatant slot.side)

/-- The turns of a fight, one after the other: they come in order, and each is what comes of the
script of its fighter where the log before it leaves the fighters. They are all that may come unless
there is a knockout, which comes with the last of them. -/
structure InTurns (rules : Rules) (p : Program) (finished : Finished) (turns : List TakenTurn) :
    Prop where
  log : finished.log.entries.toList = turns.flatMap TakenTurn.entries
    ++ [⟨finished.result.roundsPlayed, .combatEnd finished.result.fighterA finished.result.fighterB
      finished.result.outcome⟩]
  order : turns.map TakenTurn.place <+: turnOrder p
  all : finished.result.knockout = false → turns.map TakenTurn.place = turnOrder p
  knockout : finished.result.knockout = true →
    Knockout p ((opening p).replay (turns.flatMap TakenTurn.events)) ∧
      ∃ last, turns.getLast? = some last ∧ last.round = finished.result.roundsPlayed
  structured : ∀ earlier turn later, turns = earlier ++ turn :: later →
    ∃ side f script, turn.actor = p.matchup.combatant side ∧
      p.fighters.find? turn.actor = some f ∧ p.scriptFor? turn.actor = some script ∧
        Structured rules f (p.matchup.combatant side.opposite) turn.round script.body
          ((opening p).replay (earlier.flatMap TakenTurn.events)) turn.deeds

/-- A bout between fighters whose combos have steps is made of structured turns. -/
theorem Bout.Fought.inTurns {rules : Rules} {p : Program} {finished : Finished} {b : Bout}
    (hfought : b.Fought p finished) (hstages : b.Stages rules p) (hfair : b.Fair)
    (hkeys : p.fighters.Keyed Fighter.name) (hsteps : ∀ side, HasSteps (b.fighter side)) :
    InTurns rules p finished (b.play (schedule 0 p.matchup.maxTurns.toNat) (opening p)).turns := by
  have horder : b.order (schedule 0 p.matchup.maxTurns.toNat) = turnOrder p := by
    simp only [Bout.order, turnOrder, hstages.script, hstages.name_eq hkeys, Option.isSome_map]
  have hplace := b.place_play (schedule 0 p.matchup.maxTurns.toNat) (opening p)
  rw [horder] at hplace
  refine ⟨hfought.log, hplace.1, fun hnone => hplace.2 ?_,
    hfought.exists_last_of_knockout hstages hkeys, fun earlier turn later hsplit => ?_⟩
  · rw [hfought.knockout] at hnone
    exact Option.isNone_iff_eq_none.mp (Option.isSome_eq_false_iff.mp hnone)
  · obtain ⟨slot, -, hturn⟩ := Bout.exists_turn?_of_play hsplit
    obtain ⟨script, hscript, hstructured⟩ := Bout.structured_of_turn? hfair hsteps hturn
    have hactor : turn.actor = p.matchup.combatant slot.side :=
      (Bout.of_turn? hturn).2.trans (hstages.name_eq hkeys slot.side)
    rw [hstages.script] at hscript
    obtain ⟨declared, hdeclared, rfl⟩ := Option.map_eq_some_iff.mp hscript
    rw [hstages.rules, hstages.name_eq hkeys slot.side.opposite] at hstructured
    exact ⟨slot.side, _, declared, hactor, hactor ▸ hstages.fighter slot.side,
      hactor ▸ hdeclared, hstructured⟩

/-- A program that is read can be fought, and its combatants have combos with steps. -/
theorem exists_fought_of_parse (rules : Rules) {source : String} {p : Program}
    (h : Program.parse source = .ok p) :
    ∃ finished, run rules p = .ok finished ∧ ∃ b : Bout, b.Stages rules p ∧ b.Fair ∧
      b.Fought p finished ∧ ∀ side, HasSteps (b.fighter side) := by
  have hprintable := Program.printable_of_parse h
  obtain ⟨finished, hrun⟩ : ∃ finished, run rules p = .ok finished :=
    exists_run_iff.mpr hprintable.sound
  obtain ⟨b, hstages, hfair, hfought⟩ := run_eq_ok hprintable.keyed hrun
  refine ⟨finished, hrun, b, hstages, hfair, hfought, fun side name c hc => ?_⟩
  have hfighter := p.fighters.find?_eq_some_iff_mem.mp (hstages.fighter side)
  have hprinted := hprintable.fighters _ (List.mem_map_of_mem (f := Prod.snd) hfighter)
  have hcombo := (b.fighter side).combos.find?_eq_some_iff_mem.mp hc
  exact (hprinted.combos.2 c (List.mem_map_of_mem (f := Prod.snd) hcombo)).written

/-- Every program that is read can be fought, and its fight is made of turns whose deeds are what
comes of the names that the scripts yield. -/
theorem turns_structured (rules : Rules) (source : String) (p : Program)
    (h : Program.parse source = .ok p) :
    ∃ finished turns, run rules p = .ok finished ∧ InTurns rules p finished turns := by
  obtain ⟨finished, hrun, b, hstages, hfair, hfought, hsteps⟩ := exists_fought_of_parse rules h
  have hkeys := (Program.printable_of_parse h).keys
  exact ⟨finished, _, hrun, hfought.inTurns hstages hfair hkeys hsteps⟩

/-- The duel is parsed from its own text and fought, and its turns follow their scripts. -/
theorem turns_structured_duel :
    ∃ p, Program.parse (Program.duel.render 2) = .ok p ∧
      ∃ finished turns, run {} p = .ok finished ∧ InTurns {} p finished turns := by
  have hprintable : Program.duel.Printable := by decide +kernel
  obtain ⟨p, hp, -⟩ := hprintable.exists_parse_render 2
  exact ⟨p, hp, turns_structured {} (Program.duel.render 2) p hp⟩

end Lucha.Combat
