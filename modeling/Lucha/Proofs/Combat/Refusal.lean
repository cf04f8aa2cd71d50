import Lucha.Proofs.Combat.Fight
import Lucha.Proofs.Program.Printable

/-!
# Programs that are refused

A program is refused for the first thing that keeps it from being fought: a combatant that nobody
declares, then combatants that are one fighter, a starter who is no combatant, or no rounds to fight
(`Program.RefusedFor`). The check of a program finds the same things, so a program is refused
exactly if the check finds something, and for what the check finds unless a combatant is not
declared (`Combat.run_refuses_for_first`).
-/

namespace Lucha

namespace Program

variable {p : Program} {i : Inconsistency}

/-- What a program is refused for: the first thing that it lacks, whatever else it lacks. -/
inductive RefusedFor (p : Program) : Cause → Prop
  /-- The first combatant is not declared. -/
  | unknownA (hA : p.fighters.find? p.matchup.fighterA = none) :
    RefusedFor p (.unknownFighter p.matchup.fighterA)
  /-- The first combatant is declared, and the second one is not. -/
  | unknownB (hA : p.fighters.find? p.matchup.fighterA ≠ none)
    (hB : p.fighters.find? p.matchup.fighterB = none) :
    RefusedFor p (.unknownFighter p.matchup.fighterB)
  /-- The combatants are declared, and they are one fighter. -/
  | selfFight (hA : p.fighters.find? p.matchup.fighterA ≠ none)
    (hself : p.matchup.fighterA = p.matchup.fighterB) :
    RefusedFor p (.semantic ⟨.selfFight p.matchup.fighterA, p.matchup.span.line⟩)
  /-- The combatants are declared and differ, and neither of them is to start. -/
  | foreignStarter (hA : p.fighters.find? p.matchup.fighterA ≠ none)
    (hB : p.fighters.find? p.matchup.fighterB ≠ none)
    (hdistinct : p.matchup.fighterA ≠ p.matchup.fighterB)
    (hstarter : p.matchup.starter ≠ p.matchup.fighterA ∧
      p.matchup.starter ≠ p.matchup.fighterB) :
    RefusedFor p (.semantic ⟨.foreignStarter p.matchup.starter p.matchup.fighterA
      p.matchup.fighterB, p.matchup.span.line⟩)
  /-- The combatants are declared and differ, one of them is to start, and there are no rounds. -/
  | noTurns (hA : p.fighters.find? p.matchup.fighterA ≠ none)
    (hB : p.fighters.find? p.matchup.fighterB ≠ none)
    (hdistinct : p.matchup.fighterA ≠ p.matchup.fighterB)
    (hstarter : p.matchup.starter = p.matchup.fighterA ∨
      p.matchup.starter = p.matchup.fighterB)
    (hturns : p.matchup.maxTurns = 0) :
    RefusedFor p (.semantic ⟨.noTurns, p.matchup.span.line⟩)

/-- A program whose combatants are declared is refused for what its check finds. -/
theorem refusedFor_semantic_iff : p.RefusedFor (.semantic i) ↔
    p.fighters.find? p.matchup.fighterA ≠ none ∧ p.fighters.find? p.matchup.fighterB ≠ none ∧
      p.inconsistency? = some i := by
  simp only [inconsistency?, Table.contains_eq_false_iff]
  constructor
  · intro h
    cases h with
    | selfFight hA hself =>
      have hB := hself ▸ hA
      exact ⟨hA, hB, by rw [if_neg hA, if_neg hB, if_pos hself]; rfl⟩
    | foreignStarter hA hB hdistinct hstarter =>
      refine ⟨hA, hB, ?_⟩
      rw [if_neg hA, if_neg hB, if_neg hdistinct, if_pos hstarter]
      rfl
    | noTurns hA hB hdistinct hstarter hturns =>
      refine ⟨hA, hB, ?_⟩
      rw [if_neg hA, if_neg hB, if_neg hdistinct, if_neg (by tauto), if_pos hturns]
      rfl
  · rintro ⟨hA, hB, h⟩
    rw [if_neg hA, if_neg hB] at h
    split at h
    · rename_i hself
      cases h
      exact .selfFight hA hself
    · rename_i hdistinct
      split at h
      · rename_i hstarter
        cases h
        exact .foreignStarter hA hB hdistinct hstarter
      · rename_i hstarter
        split at h
        · rename_i hturns
          cases h
          exact .noTurns hA hB hdistinct (by tauto) hturns
        · cases h

end Program

namespace Combat

variable {rules : Rules} {p : Program}

/-- A program that is refused is not fought. -/
theorem run_of_refusedFor {cause : Cause} (h : p.RefusedFor cause) :
    run rules p = .error cause := by
  have hdeclared {name : String} (h : p.fighters.find? name ≠ none) :
      ¬ p.fighters.contains name = false := mt (Table.contains_eq_false_iff _).mp h
  cases cause with
  | unknownFighter name =>
    cases h with
    | unknownA hA => exact if_pos ((Table.contains_eq_false_iff _).mpr hA)
    | unknownB hA hB =>
      exact (if_neg (hdeclared hA)).trans (if_pos ((Table.contains_eq_false_iff _).mpr hB))
  | semantic i =>
    obtain ⟨hA, hB, hfound⟩ := Program.refusedFor_semantic_iff.mp h
    rw [run, if_neg (hdeclared hA), if_neg (hdeclared hB), hfound]
  | _ => cases h

/-- A program that is not fought is refused for what is said about it. -/
theorem run_eq_error_iff {cause : Cause} : run rules p = .error cause ↔ p.RefusedFor cause := by
  refine ⟨fun h => ?_, run_of_refusedFor⟩
  -- a program is refused for one cause only, the one that `run` gives
  have hsame {other : Cause} (hother : p.RefusedFor other) : p.RefusedFor cause := by
    cases h.symm.trans (run_of_refusedFor hother)
    exact hother
  by_cases hA : p.fighters.find? p.matchup.fighterA = none
  · exact hsame (.unknownA hA)
  by_cases hB : p.fighters.find? p.matchup.fighterB = none
  · exact hsame (.unknownB hA hB)
  cases hfound : p.inconsistency? with
  | some i => exact hsame (Program.refusedFor_semantic_iff.mpr ⟨hA, hB, hfound⟩)
  | none =>
    obtain ⟨finished, hrun⟩ := exists_run_iff.mpr (Program.inconsistency?_eq_none_iff.mp hfound)
    cases h.symm.trans hrun

/-- Both contenders of a program in which nothing is found are declared, so it is fought. -/
theorem exists_fight_of_consistent (h : p.inconsistency? = none) : ∃ starter other,
    p.fighters.find? p.matchup.starter = some starter ∧
      p.fighters.find? p.matchup.second = some other ∧
        run rules p = .ok (fight rules p starter other) := by
  have hsound := Program.inconsistency?_eq_none_iff.mp h
  obtain ⟨starter, hstarter⟩ := hsound.exists_combatant .starter
  obtain ⟨other, hother⟩ := hsound.exists_combatant .other
  refine ⟨starter, other, hstarter, hother, run_eq_ok_iff.mpr
    ⟨hsound, boutOf rules p starter other, ⟨rfl, ?_, fun _ => rfl⟩, rfl⟩⟩
  rintro (_ | _)
  · exact hstarter
  · exact hother

/-- The programs that cannot be fought are refused, under all rules alike. A program is refused
exactly if its check finds something. It is refused for the first of the things that it may lack,
and with its combatants declared for just what the check finds. Where the check finds nothing both
contenders are found as well, so the program is fought. So are the programs that are read from
source texts and those that are assembled. -/
theorem run_refuses_for_first (rules : Rules) (p : Program) :
    ((∃ cause, run rules p = .error cause) ↔ ∃ i, p.inconsistency? = some i) ∧
    (∀ cause, run rules p = .error cause ↔ p.RefusedFor cause) ∧
    (∀ i, run rules p = .error (.semantic i) ↔ p.fighters.find? p.matchup.fighterA ≠ none ∧
      p.fighters.find? p.matchup.fighterB ≠ none ∧ p.inconsistency? = some i) ∧
    (p.inconsistency? = none → ∃ starter other,
      p.fighters.find? p.matchup.starter = some starter ∧
        p.fighters.find? p.matchup.second = some other ∧
          run rules p = .ok (fight rules p starter other)) ∧
    (∀ source, Program.parse source = .ok p → ∃ finished, run rules p = .ok finished) ∧
    ∀ library matchup scripts, Program.assemble library matchup scripts = .ok p →
      ∃ finished, run rules p = .ok finished := by
  have hcheck : (∃ finished, run rules p = .ok finished) ↔ p.inconsistency? = none := by
    rw [exists_run_iff, Program.inconsistency?_eq_none_iff]
  refine ⟨?_, fun _ => run_eq_error_iff, fun _ => ?_, exists_fight_of_consistent, ?_, ?_⟩
  · rw [← Option.ne_none_iff_exists', ne_eq, ← hcheck]
    cases run rules p <;> simp
  · rw [run_eq_error_iff, Program.refusedFor_semantic_iff]
  · intro source h
    exact hcheck.mpr (Program.printable_of_parse h).fightable
  · intro library matchup scripts h
    exact exists_run_iff.mpr (Program.assemble_eq_ok_iff.mp h).2

/-- A fighter who is to fight an undeclared one: of all that is wrong the undeclared one counts. -/
example (rules : Rules) : run rules ⟨.empty, ⟨"Ana", "Ana", "Eva", 0, .none⟩, []⟩
    = .error (.unknownFighter "Ana") :=
  rfl

end Combat

end Lucha
