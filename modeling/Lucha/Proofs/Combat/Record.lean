import Lucha.Proofs.Combat.Fight
import Lucha.Proofs.Program.Printable

/-!
# The log as an account of the fight

Replaying the log tells how the fighters stand at every moment of a fight. Each event agrees with
that and with the program (`Agrees`), and after the last one the fighters stand as the result says
(`log_accounts_for_fight`): nothing changes without a record, and no record is wrong.
-/

namespace Lucha.Combat

/-- What an event says agrees with the program and with how the fighters stand before it. -/
def Agrees (p : Program) (s : Standing) : Event → Prop
  | .deed actor deed =>
    ∃ side f, p.fighters.find? (p.matchup.combatant side) = some f ∧ f.name = actor ∧
      Justified f (p.matchup.combatant side.opposite) s deed
  | .combatEnd a b outcome =>
    Tells p s p.matchup.fighterA a ∧ Tells p s p.matchup.fighterB b ∧ outcome = .between a b

/-- The events agree with the program one after the other. -/
def Accurate (p : Program) : Standing → List Event → Prop
  | _, [] => True
  | s, event :: events => Agrees p s event ∧ Accurate p (s.after event) events

variable {p : Program} {s : Standing}

/-- Events are accurate one after the other: the later ones where the earlier ones lead. -/
theorem accurate_append {events more : List Event} :
    Accurate p s (events ++ more) ↔ Accurate p s events ∧ Accurate p (s.replay events) more := by
  induction events generalizing s with
  | nil => simp [Accurate]
  | cons event events ih => exact (and_congr_right fun _ => ih).trans and_assoc.symm

/-- Each of some accurate events agrees with what the ones before it lead to. -/
theorem Accurate.agrees {earlier later : List Event} {event : Event}
    (h : Accurate p s (earlier ++ event :: later)) : Agrees p (s.replay earlier) event :=
  (accurate_append.mp h).2.1

/-- Justified deeds of a combatant agree with the program. -/
theorem Accounts.accurate {side : Side} {f : Fighter} {deeds : List Deed}
    (hf : p.fighters.find? (p.matchup.combatant side) = some f)
    (h : Accounts f (p.matchup.combatant side.opposite) s deeds) :
    Accurate p s (deeds.map (.deed f.name)) := by
  induction deeds generalizing s with
  | nil => trivial
  | cons deed deeds ih =>
    obtain ⟨hdeed, hdeeds⟩ := h
    exact ⟨⟨side, f, hf, rfl, hdeed⟩, ih hdeeds⟩

/-- The turns of a bout agree with the program. -/
theorem Bout.Stages.accurate_play {b : Bout} {rules : Rules} (h : b.Stages rules p)
    (hkeyed : p.Keyed) (hfair : b.Fair) (slots : List Slot) (s : Standing) :
    Accurate p s ((b.play slots s).turns.flatMap TakenTurn.events) := by
  induction slots generalizing s with
  | nil => trivial
  | cons slot slots ih =>
    rw [play]
    cases hturn : b.turn? slot s with
    | none => exact ih s
    | some turn =>
      have haccounts := Bout.accounts_turnEnd hfair slot s
      rw [h.name_eq hkeyed.fighters slot.side.opposite] at haccounts
      have hevents : Accurate p s turn.events := by
        obtain ⟨block, -, rfl⟩ := Option.map_eq_some_iff.mp hturn
        exact haccounts.accurate (h.fighter slot.side)
      simp only
      split
      · rw [List.flatMap_singleton]
        exact hevents
      · rw [List.flatMap_cons]
        exact accurate_append.mpr ⟨hevents, ih _⟩

/-- The log is a complete and exact account of the fight. Every event in it agrees with the program
and with what the events before it make of the fighters, and what all of them make of the fighters
is what the result tells. -/
theorem log_accounts_for_fight (rules : Rules) (p : Program) (finished : Finished)
    (hkeyed : p.Keyed) (h : run rules p = .ok finished) :
    (∀ earlier event later, finished.log.events = earlier ++ event :: later →
      Agrees p ((opening p).replay earlier) event) ∧
    let s := (opening p).replay finished.log.events
    Tells p s p.matchup.fighterA finished.result.fighterA ∧
      Tells p s p.matchup.fighterB finished.result.fighterB ∧
        finished.result.outcome = .between finished.result.fighterA finished.result.fighterB := by
  obtain ⟨b, hstages, hfair, hlog, hfighterA, hfighterB, houtcome, -, -⟩ := run_eq_ok hkeyed h
  have hevents := congrArg (List.map Entry.event) hlog
  rw [List.map_append, TakenTurn.map_event_entries, List.map_singleton] at hevents
  change finished.log.events = _ at hevents
  have hplay := hstages.accurate_play hkeyed hfair
    (schedule 0 p.matchup.maxTurns.toNat) (opening p)
  have hend : Accurate p _ [.combatEnd finished.result.fighterA finished.result.fighterB
      finished.result.outcome] := ⟨⟨hfighterA, hfighterB, houtcome⟩, trivial⟩
  have haccurate := accurate_append.mpr ⟨hplay, hend⟩
  rw [← hevents] at haccurate
  refine ⟨fun earlier event later hsplit => ?_, ?_⟩
  · rw [hsplit] at haccurate
    exact haccurate.agrees
  · -- the end of the fight changes nothing
    rw [hevents, Standing.replay_append]
    exact ⟨hfighterA, hfighterB, houtcome⟩

/-- The log of a duel. -/
theorem log_accounts_for_duel :
    let finished := fight {} .duel .beto .ana
    Program.duel.Keyed ∧ run {} .duel = .ok finished ∧
      (∀ earlier event later, finished.log.events = earlier ++ event :: later →
        Agrees .duel ((opening .duel).replay earlier) event) ∧
      let s := (opening .duel).replay finished.log.events
      Tells .duel s "Ana" finished.result.fighterA ∧ Tells .duel s "Beto" finished.result.fighterB ∧
        finished.result.outcome = .between finished.result.fighterA finished.result.fighterB :=
  ⟨by decide, rfl, log_accounts_for_fight {} .duel _ (by decide) rfl⟩

end Lucha.Combat
