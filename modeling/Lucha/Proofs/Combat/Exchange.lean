import Lucha.Proofs.Combat.Fight
import Lucha.Proofs.Program.Printable

/-!
# The order in which the combatants are named

A matchup names its combatants one after the other, and a fight goes by who starts. So the bout of a
program is the bout of the program that names them the other way round (`Bout.Stages.exchanged`),
and only what is told of the end has them in the order of their names (`run_exchanged`). Who wins is
found from the hit points of both alike (`Outcome.between_comm`).
-/

namespace Lucha

/-- The program with its combatants named the other way round. -/
def Program.exchanged (p : Program) : Program :=
  { p with matchup := { p.matchup with
      fighterA := p.matchup.fighterB
      fighterB := p.matchup.fighterA } }

/-- A program that can be fought can be fought with its combatants exchanged. -/
theorem Program.Sound.exchanged {p : Program} (h : p.Sound) : p.exchanged.Sound :=
  ⟨h.fighterB, h.fighterA, h.combatants.symm, h.starter.symm, h.maxTurns⟩

/-- Each combatant keeps its place in the rounds. -/
theorem Program.Sound.combatant_exchanged {p : Program} (h : p.Sound) (side : Combat.Side) :
    p.exchanged.matchup.combatant side = p.matchup.combatant side := by
  cases side with
  | starter => rfl
  | other =>
    change p.exchanged.matchup.second = p.matchup.second
    obtain ⟨hstarter, hsecond⟩ | ⟨hstarter, hsecond⟩ := h.combatants_eq
    · have hne : p.matchup.starter ≠ p.matchup.fighterB := hstarter ▸ h.combatants
      exact (if_neg hne).trans hsecond.symm
    · exact (if_pos hstarter).trans hsecond.symm

namespace Combat

/-- The event with the end told of both combatants the other way round. -/
def Event.exchanged : Event → Event
  | combatEnd fighterA fighterB outcome => combatEnd fighterB fighterA outcome
  | deed actor done => deed actor done

/-- The entry with the end told of both combatants the other way round. -/
def Entry.exchanged (entry : Entry) : Entry :=
  { entry with event := entry.event.exchanged }

/-- The record with the end told of both combatants the other way round. -/
def Record.exchanged (r : Record) : Record :=
  { r with event := r.event.exchanged }

/-- The result with both combatants the other way round. -/
def Result.exchanged (r : Result) : Result :=
  { r with fighterA := r.fighterB, fighterB := r.fighterA }

/-- Who won does not depend on who is named first. -/
theorem Outcome.between_comm (a b : Snapshot) : Outcome.between a b = .between b a := by
  rw [between, between]
  split
  · rename_i hlt
    rw [if_neg (UInt32.not_lt.mpr (UInt32.le_of_lt hlt))]
  · rfl

/-- The end is told of the combatants as they are named, and the deeds of all turns as they are. -/
theorem TakenTurn.map_exchanged_entries (turns : List TakenTurn) :
    (turns.flatMap entries).map Entry.exchanged = turns.flatMap entries := by
  refine (List.map_congr_left fun entry hentry => ?_).trans (List.map_id _)
  obtain ⟨turn, -, hturn⟩ := List.mem_flatMap.mp hentry
  obtain ⟨event, hevent, rfl⟩ := List.mem_map.mp hturn
  obtain ⟨deed, -, rfl⟩ := List.mem_map.mp hevent
  rfl

namespace Bout.Stages

variable {b b' : Bout} {rules : Rules} {p : Program}

/-- A program stages one bout at most. -/
theorem unique (h : b.Stages rules p) (h' : b'.Stages rules p) : b = b' := by
  obtain ⟨bRules, bFighter, bScript⟩ := b
  obtain ⟨bRules', bFighter', bScript'⟩ := b'
  rw [Bout.mk.injEq]
  refine ⟨h.rules.trans h'.rules.symm, funext fun side => ?_, funext fun side => ?_⟩
  · exact Option.some.inj ((h.fighter side).symm.trans (h'.fighter side))
  · exact (h.script side).trans (h'.script side).symm

/-- The same bout is staged with the combatants named the other way round. -/
theorem exchanged (h : b.Stages rules p) (hsound : p.Sound) : b.Stages rules p.exchanged where
  rules := h.rules
  fighter side := by
    rw [hsound.combatant_exchanged]
    exact h.fighter side
  script side := by
    rw [hsound.combatant_exchanged]
    exact h.script side

end Bout.Stages

/-- What is told about a fighter is determined by where it stands. -/
theorem Tells.unique {p : Program} {s : Standing} {name : String} {snapshot snapshot' : Snapshot}
    (h : Tells p s name snapshot) (h' : Tells p s name snapshot') : snapshot = snapshot' := by
  obtain ⟨f, hf, rfl⟩ := h
  obtain ⟨f', hf', rfl⟩ := h'
  cases hf.symm.trans hf'
  rfl

/-- A bout that was fought out for a program and for the program that names its combatants the other
way round has the same end, told the other way round. -/
theorem Bout.Fought.exchanged {b : Bout} {p : Program} {finished finished' : Finished}
    (h : b.Fought p finished) (h' : b.Fought p.exchanged finished') :
    finished'.log.entries.toList = finished.log.entries.toList.map Entry.exchanged ∧
      finished'.result = finished.result.exchanged := by
  have hA : finished'.result.fighterA = finished.result.fighterB :=
    Tells.unique h'.fighterA h.fighterB
  have hB : finished'.result.fighterB = finished.result.fighterA :=
    Tells.unique h'.fighterB h.fighterA
  have houtcome : finished'.result.outcome = finished.result.outcome := by
    rw [h'.outcome, h.outcome, hA, hB, Outcome.between_comm]
  have hrounds : finished'.result.roundsPlayed = finished.result.roundsPlayed :=
    h'.roundsPlayed.trans h.roundsPlayed.symm
  have hknockout : finished'.result.knockout = finished.result.knockout :=
    h'.knockout.trans h.knockout.symm
  constructor
  · rw [h'.log, h.log, List.map_append, TakenTurn.map_exchanged_entries, hA, hB, houtcome, hrounds]
    rfl
  · rw [Result.exchanged, ← hA, ← hB, ← houtcome, ← hrounds, ← hknockout]

/-- The order in which the combatants are named makes no difference but to how the end is told. A
program that can be fought can be fought with its combatants named the other way round. All records
are the same, but the last one tells about both the other way round, and so does the result, which
has the same outcome after the same rounds. -/
theorem run_exchanged (rules : Rules) (p : Program) (finished : Finished)
    (hkeys : p.fighters.Keyed Fighter.name) (h : run rules p = .ok finished) :
    ∃ finished', run rules p.exchanged = .ok finished' ∧
      finished'.log.records = finished.log.records.map Record.exchanged ∧
      finished'.result = finished.result.exchanged := by
  have hsound := (run_eq_ok_iff.mp h).1
  obtain ⟨b, hstages, -, hfought⟩ := exists_fought hkeys h
  obtain ⟨finished', h'⟩ := exists_run_iff.mpr hsound.exchanged
  obtain ⟨b', hstages', -, hfought'⟩ := exists_fought (p := p.exchanged) hkeys h'
  obtain rfl := (hstages.exchanged hsound).unique hstages'
  obtain ⟨hlog, hresult⟩ := hfought.exchanged hfought'
  refine ⟨finished', h', ?_, hresult⟩
  rw [Log.records_eq, Log.records_eq, hlog]
  refine List.ext_getElem (by simp) fun id hid hid' => ?_
  simp [Entry.record, Entry.exchanged, Record.exchanged]

/-- A duel with its combatants exchanged. -/
theorem run_exchanged_duel :
    let finished := fight {} .duel .beto .ana
    Program.duel.fighters.Keyed Fighter.name ∧ run {} .duel = .ok finished ∧
      ∃ finished', run {} Program.duel.exchanged = .ok finished' ∧
        finished'.log.records = finished.log.records.map Record.exchanged ∧
        finished'.result = finished.result.exchanged :=
  ⟨by decide, rfl, run_exchanged {} .duel _ (by decide) rfl⟩

end Combat

end Lucha
