import Lucha.Proofs.Combat.Course

/-!
# The fight of a program

A program can be fought exactly if it is sound (`exists_run_iff`). Its fight is the bout of its two
combatants, who start with all their hit points and stamina: the log holds the turns that are
played, one after the other, and then the end, which tells how both stand after them
(`exists_fought`).
-/

namespace Lucha

/-- The name of a combatant. -/
def Matchup.combatant (m : Matchup) : Combat.Side → String
  | .starter => m.starter
  | .other => m.second

/-- One of the combatants starts, and the other one comes second. -/
theorem Program.Sound.combatants_eq {p : Program} (h : p.Sound) :
    (p.matchup.starter = p.matchup.fighterA ∧ p.matchup.second = p.matchup.fighterB) ∨
      (p.matchup.starter = p.matchup.fighterB ∧ p.matchup.second = p.matchup.fighterA) := by
  obtain hA | hB := h.starter
  · exact .inl ⟨hA, if_pos hA⟩
  · have hne : p.matchup.starter ≠ p.matchup.fighterA := fun hA => h.combatants (hA.symm.trans hB)
    exact .inr ⟨hB, if_neg hne⟩

/-- The one who starts and the other are the combatants of the matchup. -/
theorem Program.Sound.combatant_mem {p : Program} (h : p.Sound) (side : Combat.Side) :
    p.matchup.combatant side ∈ [p.matchup.fighterA, p.matchup.fighterB] := by
  obtain ⟨hstarter, hsecond⟩ | ⟨hstarter, hsecond⟩ := h.combatants_eq <;> cases side <;>
    simp only [Matchup.combatant, hstarter, hsecond, List.mem_cons, true_or, or_true]

/-- Both combatants of a program that can be fought are declared. -/
theorem Program.Sound.exists_combatant {p : Program} (h : p.Sound) (side : Combat.Side) :
    ∃ f, p.fighters.find? (p.matchup.combatant side) = some f := by
  rw [← Table.contains_eq_true_iff]
  obtain ⟨hstarter, hsecond⟩ | ⟨hstarter, hsecond⟩ := h.combatants_eq <;> cases side <;>
    simp only [Matchup.combatant, hstarter, hsecond, h.fighterA, h.fighterB]

namespace Combat

/-- How everyone stands at the start of a fight. -/
def opening (p : Program) : Standing := fun name =>
  match p.fighters.find? name with
  | some f => ⟨f.hpMax, f.staminaMax⟩
  | none => ⟨0, 0⟩

/-- A bout is between the combatants of a program, with their scripts. -/
structure Bout.Stages (b : Bout) (rules : Rules) (p : Program) : Prop where
  rules : b.rules = rules
  fighter : ∀ side, p.fighters.find? (p.matchup.combatant side) = some (b.fighter side)
  script : ∀ side, b.script side = (p.scriptFor? (p.matchup.combatant side)).map Script.body

/-- The bout of two fighters of a program. -/
def boutOf (rules : Rules) (p : Program) (starter other : Fighter) : Bout where
  rules := rules
  fighter := fun
    | .starter => starter
    | .other => other
  script := fun side => (p.scriptFor? (p.matchup.combatant side)).map Script.body

/-- A fight is had exactly by sound programs, and it is that of the declared combatants. -/
theorem run_eq_ok_iff {rules : Rules} {p : Program} {finished : Finished} :
    run rules p = .ok finished ↔
      p.Sound ∧ ∃ b : Bout, b.Stages rules p ∧
        finished = fight rules p (b.fighter .starter) (b.fighter .other) := by
  constructor
  · intro h
    rw [run] at h
    split at h
    · cases h
    · split at h
      · cases h
      · split at h
        · cases h
        · rename_i hnone
          split at h
          · rename_i starter other hstarter hother
            refine ⟨Program.inconsistency?_eq_none_iff.mp hnone, boutOf rules p starter other,
              ⟨rfl, ?_, fun _ => rfl⟩, (Except.ok.inj h).symm⟩
            intro side
            cases side with
            | starter => exact hstarter
            | other => exact hother
          · cases h
          · cases h
  · rintro ⟨hsound, b, hstages, rfl⟩
    have hstarter : p.fighters.find? p.matchup.starter = some (b.fighter .starter) :=
      hstages.fighter .starter
    have hother : p.fighters.find? p.matchup.second = some (b.fighter .other) :=
      hstages.fighter .other
    rw [run, hsound.fighterA, hsound.fighterB, Program.inconsistency?_eq_none_iff.mpr hsound,
      hstarter, hother]
    simp

/-- A program can be fought exactly if it is sound. -/
theorem exists_run_iff {rules : Rules} {p : Program} :
    (∃ finished, run rules p = .ok finished) ↔ p.Sound := by
  constructor
  · rintro ⟨finished, h⟩
    exact (run_eq_ok_iff.mp h).1
  · intro h
    obtain ⟨starter, hstarter⟩ := h.exists_combatant .starter
    obtain ⟨other, hother⟩ := h.exists_combatant .other
    refine ⟨_, run_eq_ok_iff.mpr ⟨h, boutOf rules p starter other, ⟨rfl, ?_, fun _ => rfl⟩, rfl⟩⟩
    intro side
    cases side with
    | starter => exact hstarter
    | other => exact hother

/-- What is told about a fighter of a program where it stands. -/
def Tells (p : Program) (s : Standing) (name : String) (snapshot : Snapshot) : Prop :=
  ∃ f, p.fighters.find? name = some f ∧ snapshot = (s.contender f).snapshot

/-- What is told about a fighter: its name, what is left, and what there was at the start. -/
theorem Tells.eq {p : Program} {s : Standing} {name : String} {snapshot : Snapshot}
    (hkeys : p.fighters.Keyed Fighter.name) (h : Tells p s name snapshot) :
    snapshot = ⟨name, (s name).hp, (s name).stamina, (opening p name).hp,
      (opening p name).stamina⟩ := by
  obtain ⟨f, hf, rfl⟩ := h
  obtain rfl := hkeys hf
  simp only [opening, hf]
  rfl

namespace Bout.Stages

variable {b : Bout} {rules : Rules} {p : Program}

/-- On each side stands the combatant under its own name. -/
theorem name_eq (h : b.Stages rules p) (hkeys : p.fighters.Keyed Fighter.name) (side : Side) :
    (b.fighter side).name = p.matchup.combatant side :=
  hkeys (h.fighter side)

/-- The fighters of a sound program differ in name. -/
theorem distinct (h : b.Stages rules p) (hkeys : p.fighters.Keyed Fighter.name)
    (hsound : p.Sound) : b.Distinct := by
  rw [Distinct, h.name_eq hkeys, h.name_eq hkeys]
  change p.matchup.starter ≠ p.matchup.second
  obtain ⟨hstarter, hsecond⟩ | ⟨hstarter, hsecond⟩ := hsound.combatants_eq
  · rw [hstarter, hsecond]
    exact hsound.combatants
  · rw [hstarter, hsecond]
    exact hsound.combatants.symm

/-- Both combatants are the contenders of the bout, on one side and on the other. -/
theorem exists_side (h : b.Stages rules p) (hkeys : p.fighters.Keyed Fighter.name)
    (hsound : p.Sound) : ∃ side, p.matchup.fighterA = (b.fighter side).name ∧
      p.matchup.fighterB = (b.fighter side.opposite).name := by
  have hstarter : (b.fighter .starter).name = p.matchup.starter := h.name_eq hkeys .starter
  have hother : (b.fighter .other).name = p.matchup.second := h.name_eq hkeys .other
  obtain ⟨hA, hB⟩ | ⟨hB, hA⟩ := hsound.combatants_eq
  · exact ⟨.starter, (hstarter.trans hA).symm, (hother.trans hB).symm⟩
  · exact ⟨.other, (hother.trans hA).symm, (hstarter.trans hB).symm⟩

/-- What both fighters declare stands under its own name. -/
theorem keyed (h : b.Stages rules p) (hkeyed : p.Keyed) (side : Side) :
    (b.fighter side).Keyed := by
  have hmem := p.fighters.find?_eq_some_iff_mem.mp (h.fighter side)
  exact hkeyed.declared _ (List.mem_map_of_mem (f := Prod.snd) hmem)

/-- Both contenders start as they are declared. -/
theorem pair_opening (h : b.Stages rules p) (hkeys : p.fighters.Keyed Fighter.name) :
    b.pair (opening p) = ⟨.fresh (b.fighter .starter), .fresh (b.fighter .other)⟩ := by
  have hfresh (side : Side) :
      (opening p).contender (b.fighter side) = .fresh (b.fighter side) := by
    rw [Standing.contender, opening, h.name_eq hkeys, h.fighter]
    rfl
  rw [pair, hfresh, hfresh]

/-- The end of a fight tells about both combatants where they stand, and says who won. -/
theorem finish_spec (h : b.Stages rules p) (hkeys : p.fighters.Keyed Fighter.name)
    (hsound : p.Sound) {e : Ending} {s : Standing} (hpair : e.pair = b.pair s) :
    let finished := e.finish p.matchup.fighterA
    let r := finished.result
    finished.log.entries.toList
        = e.log.entries.toList ++ [⟨r.roundsPlayed, .combatEnd r.fighterA r.fighterB r.outcome⟩] ∧
      Tells p s p.matchup.fighterA r.fighterA ∧ Tells p s p.matchup.fighterB r.fighterB ∧
      r.outcome = .between r.fighterA r.fighterB ∧ r.knockout = e.knockout ∧
      r.roundsPlayed = e.round := by
  have hname : e.pair.starter.name = p.matchup.starter := hpair ▸ h.name_eq hkeys .starter
  have hstarter : Tells p s p.matchup.starter e.pair.starter.snapshot :=
    ⟨_, h.fighter .starter, hpair ▸ rfl⟩
  have hother : Tells p s p.matchup.second e.pair.other.snapshot :=
    ⟨_, h.fighter .other, hpair ▸ rfl⟩
  simp only [Ending.finish, Log.push, Array.toList_push, true_and, and_true, hname]
  -- the result tells about `fighterA` first, whoever starts
  obtain ⟨heq, hsecond⟩ | ⟨heq, hsecond⟩ := hsound.combatants_eq
  · rw [if_pos heq, if_pos heq, ← heq, ← hsecond]
    exact ⟨hstarter, hother⟩
  · have hne : p.matchup.starter ≠ p.matchup.fighterA := heq ▸ hsound.combatants.symm
    rw [if_neg hne, if_neg hne, ← heq, ← hsecond]
    exact ⟨hother, hstarter⟩

end Bout.Stages

/-- A bout of a program was fought out: the log holds the turns that are played and then the end,
which tells how both combatants stand after them. -/
structure Bout.Fought (b : Bout) (p : Program) (finished : Finished) : Prop where
  log : finished.log.entries.toList
    = (b.play (schedule 0 p.matchup.maxTurns.toNat) (opening p)).turns.flatMap TakenTurn.entries
      ++ [⟨finished.result.roundsPlayed, .combatEnd finished.result.fighterA
        finished.result.fighterB finished.result.outcome⟩]
  fighterA : Tells p ((opening p).replay
    ((b.play (schedule 0 p.matchup.maxTurns.toNat) (opening p)).turns.flatMap TakenTurn.events))
    p.matchup.fighterA finished.result.fighterA
  fighterB : Tells p ((opening p).replay
    ((b.play (schedule 0 p.matchup.maxTurns.toNat) (opening p)).turns.flatMap TakenTurn.events))
    p.matchup.fighterB finished.result.fighterB
  outcome : finished.result.outcome = .between finished.result.fighterA finished.result.fighterB
  knockout : finished.result.knockout
    = (b.play (schedule 0 p.matchup.maxTurns.toNat) (opening p)).knockout?.isSome
  roundsPlayed : finished.result.roundsPlayed
    = (b.play (schedule 0 p.matchup.maxTurns.toNat) (opening p)).knockout?.getD
      p.matchup.maxTurns.toNat

namespace Bout.Fought

variable {b : Bout} {p : Program} {finished : Finished}

/-- The events of a fight are those of its turns and its end. -/
theorem events_eq (h : b.Fought p finished) :
    finished.log.events
      = (b.play (schedule 0 p.matchup.maxTurns.toNat) (opening p)).turns.flatMap TakenTurn.events
        ++ [.combatEnd finished.result.fighterA finished.result.fighterB
          finished.result.outcome] := by
  rw [Log.events, h.log, List.map_append, TakenTurn.map_event_entries]
  rfl

/-- The end of a fight changes nothing. -/
theorem replay_events (h : b.Fought p finished) (s : Standing) :
    s.replay finished.log.events = s.replay
      ((b.play (schedule 0 p.matchup.maxTurns.toNat) (opening p)).turns.flatMap
        TakenTurn.events) := by
  rw [h.events_eq, Standing.replay_append]
  rfl

/-- A deed in the log is one of a turn that was played. It was done where the log before it leaves
the fighters: the turns before that turn and the deeds so far. -/
theorem exists_turn? (h : b.Fought p finished) {earlier later : List Event} {actor : String}
    {deed : Deed} (hsplit : finished.log.events = earlier ++ .deed actor deed :: later) :
    ∃ slot s turn done todo, b.turn? slot s = some turn ∧ turn.actor = actor ∧
      turn.deeds = done ++ deed :: todo ∧
        (opening p).replay earlier = s.afterDeeds actor done := by
  rw [h.events_eq, List.append_eq_append_iff] at hsplit
  obtain ⟨front, -, hend⟩ | ⟨front, hturns, hend⟩ := hsplit
  · -- the end of the fight is no deed
    obtain _ | ⟨_, front⟩ := front <;> simp at hend
  · obtain _ | ⟨_, front⟩ := front
    · simp at hend
    · obtain ⟨rfl, -⟩ := List.cons.inj hend
      obtain ⟨before, turn, after, done, _, todo, hplayed, hdeeds, ⟨⟩, rfl⟩ :=
        TakenTurn.exists_of_flatMap_events hturns
      obtain ⟨slot, -, hturn⟩ := Bout.exists_turn?_of_play hplayed
      refine ⟨slot, _, turn, done, todo, hturn, rfl, hdeeds, ?_⟩
      rw [Standing.replay_append, Standing.replay_deeds]

end Bout.Fought

/-- The fight of a program is a bout that was fought out, if its fighters stand under their own
names. -/
theorem exists_fought {rules : Rules} {p : Program} {finished : Finished}
    (hkeys : p.fighters.Keyed Fighter.name) (h : run rules p = .ok finished) :
    ∃ b : Bout, b.Stages rules p ∧ b.Distinct ∧ b.Fought p finished := by
  obtain ⟨hsound, b, hstages, rfl⟩ := run_eq_ok_iff.mp h
  have hdistinct := hstages.distinct hkeys hsound
  have hscripts : (⟨(p.scriptFor? p.matchup.starter).map Script.body,
      (p.scriptFor? p.matchup.second).map Script.body⟩ : Scripts) = b.scripts := by
    rw [Bout.scripts, hstages.script, hstages.script]
    rfl
  obtain ⟨hlog, hpair, hknockout, hround⟩ :=
    Bout.playRounds_eq hdistinct p.matchup.maxTurns.toNat 0 (opening p) .empty
  have hempty : Log.empty.entries.toList = [] := rfl
  rw [hempty, List.nil_append] at hlog
  rw [Nat.zero_add] at hround
  rw [hstages.rules] at hlog hpair hknockout hround
  have hfinish := hstages.finish_spec hkeys hsound hpair
  rw [hlog, hknockout, hround] at hfinish
  obtain ⟨hlog, hA, hB, houtcome, hknockout, hround⟩ := hfinish
  have hfight : fight rules p (b.fighter .starter) (b.fighter .other)
      = (playRounds rules b.scripts p.matchup.maxTurns.toNat 0 (b.pair (opening p))
        .empty).finish p.matchup.fighterA := by
    simp only [fight, hscripts, ← hstages.pair_opening hkeys]
  rw [hfight]
  exact ⟨b, hstages, hdistinct, ⟨hlog, hA, hB, houtcome, hknockout, hround⟩⟩

/-- The fight of a program is a fair one, if everything in it stands under its own name. -/
theorem run_eq_ok {rules : Rules} {p : Program} {finished : Finished} (hkeyed : p.Keyed)
    (h : run rules p = .ok finished) :
    ∃ b : Bout, b.Stages rules p ∧ b.Fair ∧ b.Fought p finished := by
  obtain ⟨b, hstages, hdistinct, hfought⟩ := exists_fought hkeyed.fighters h
  exact ⟨b, hstages, ⟨hdistinct, hstages.keyed hkeyed⟩, hfought⟩

end Combat

end Lucha
