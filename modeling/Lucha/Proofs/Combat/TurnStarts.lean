import Lucha.Proofs.Combat.Rounds

/-!
# What the recorded starts of turns change

The start of a turn is told, if at all, before anything is done in the turn, and no deed that
follows tells of another. So a turn of rules that record no starts is the turn of rules that record
them without that one deed (`takeTurn_silent`), and the same goes for rounds and fights. Apart from
these records and the numbers of the others nothing changes (`turn_starts_only_recorded`).
-/

namespace Lucha.Combat

/-- The rules with the starts of turns recorded, or not. -/
def Rules.withTurnStarts (rules : Rules) (recorded : Bool) : Rules :=
  { rules with recordTurnStarts := recorded }

/-- Records that are numbered anew, from zero. -/
def renumbered (records : List Record) : List Record :=
  records.mapIdx fun id r => { r with id }

namespace Log

/-- The log without the records of some events. -/
def keeping (log : Log) (p : Event → Bool) : Log :=
  ⟨log.entries.filter fun entry => p entry.event⟩

variable {p : Event → Bool} {log : Log}

/-- The events that are kept stand in the order that they had. -/
theorem toList_keeping :
    (log.keeping p).entries.toList = log.entries.toList.filter fun entry => p entry.event :=
  Array.toList_filter

/-- An event that is kept may be recorded before the others are left out or after. -/
theorem keeping_push_of_pos {event : Event} (h : p event = true) (round : Nat) :
    (log.push round event).keeping p = (log.keeping p).push round event := by
  refine ext_toList ?_
  rw [toList_keeping, push, push, Array.toList_push, Array.toList_push, toList_keeping,
    List.filter_append]
  simp [h]

/-- Events may be left out before they are recorded or after. -/
theorem keeping_extend (round : Nat) (events : List Event) :
    (log.extend round events).keeping p = (log.keeping p).extend round (events.filter p) := by
  refine ext_toList ?_
  rw [toList_keeping, toList_extend, toList_extend, toList_keeping, List.filter_append,
    List.filter_map]
  rfl

/-- Items may be numbered, picked out and numbered anew, or picked out and then numbered, if the
number does not decide what is picked out and is not kept. -/
private theorem mapIdx_filter_mapIdx {α β γ : Type} {q : β → Bool} {q' : α → Bool}
    {f : Nat → α → β} {g : Nat → β → γ} {h : Nat → α → γ} (hq : ∀ i a, q (f i a) = q' a)
    (hg : ∀ i j a, g i (f j a) = h i a) (items : List α) :
    ((items.mapIdx f).filter q).mapIdx g = (items.filter q').mapIdx h := by
  induction items generalizing f g h with
  | nil => rfl
  | cons a items ih =>
    rw [List.mapIdx_cons, List.filter_cons, List.filter_cons, hq]
    split
    · rw [List.mapIdx_cons, List.mapIdx_cons, hg]
      exact congrArg _ (ih (fun i => hq (i + 1)) fun i j => hg (i + 1) (j + 1))
    · exact ih (fun i => hq (i + 1)) fun i j => hg i (j + 1)

/-- The records of the events that are kept, numbered anew. -/
theorem records_keeping :
    (log.keeping p).records = renumbered (log.records.filter fun r => p r.event) := by
  rw [records_eq, toList_keeping, renumbered, records_eq]
  exact (mapIdx_filter_mapIdx (f := Entry.record) (h := Entry.record) (fun _ _ => rfl)
    (fun _ _ _ => rfl) log.entries.toList).symm

end Log

/-- An event that is not the start of a turn. -/
def Event.isNoStart (event : Event) : Bool :=
  event.type ≠ .turnStart

section Silent

variable (rules : Rules)

/-- What came of a turn that is told without its start. -/
def TurnEnd.silent (e : TurnEnd) : TurnEnd :=
  { e with deeds := e.deeds.filter (·.type ≠ .turnStart) }

/-- What came of a round whose turns are told without their starts. -/
def RoundEnd.silent (e : RoundEnd) : RoundEnd :=
  { e with events := e.events.filter Event.isNoStart }

/-- Where rounds led whose turns are told without their starts. -/
def Ending.silent (e : Ending) : Ending :=
  { e with log := e.log.keeping Event.isNoStart }

/-- A turn whose start is not recorded is the same turn without that event. -/
theorem takeTurn_silent (round : Nat) (script : Option Block) (actor target : Contender) :
    takeTurn (rules.withTurnStarts false) round script actor target
      = (takeTurn (rules.withTurnStarts true) round script actor target).silent := by
  cases script with
  | none => rfl
  | some block =>
    let acted := Move.follow rules.comboDepth.toNat block
      ⟨actor, target, rules.maxCombosPerTurn.toNat, false⟩
    have hacted : acted.1.filter (·.type ≠ .turnStart) = acted.1 :=
      List.filter_eq_self.mpr fun deed hdeed =>
        decide_eq_true (Move.startsNone_follow _ _ hdeed)
    have htold : (takeTurn (rules.withTurnStarts true) round (some block) actor target).silent
        = { takeTurn (rules.withTurnStarts false) round (some block) actor target with
          deeds := (.startTurn round :: acted.1).filter (·.type ≠ .turnStart) } := rfl
    rw [htold, List.filter_cons_of_neg (by simp [Deed.type]), hacted]
    rfl

/-- A round where no start of a turn is recorded is the same round without these events. -/
theorem playRound_silent (scripts : Scripts) (round : Nat) (pair : Pair) :
    playRound (rules.withTurnStarts false) scripts round pair
      = (playRound (rules.withTurnStarts true) scripts round pair).silent := by
  have hevents (actor : String) (e : TurnEnd) :
      e.silent.deeds.map (.deed actor) = (e.deeds.map (.deed actor)).filter Event.isNoStart := by
    rw [List.filter_map]
    rfl
  simp only [playRound, takeTurn_silent, hevents]
  have hsame (e : TurnEnd) :
      e.silent.knockout = e.knockout ∧ e.silent.actor = e.actor ∧ e.silent.target = e.target :=
    ⟨rfl, rfl, rfl⟩
  simp only [hsame]
  split
  · rfl
  · rw [RoundEnd.silent, List.filter_append]

/-- Rounds whose turns are told without their starts, by induction on the rounds that are left. -/
theorem playRounds_silent (scripts : Scripts) (left round : Nat) (pair : Pair) (log : Log) :
    playRounds (rules.withTurnStarts false) scripts left round pair (log.keeping Event.isNoStart)
      = (playRounds (rules.withTurnStarts true) scripts left round pair log).silent := by
  induction left generalizing round pair log with
  | zero => rfl
  | succ left ih =>
    simp only [playRounds, playRound_silent, RoundEnd.silent, ← Log.keeping_extend]
    split
    · rfl
    · exact ih _ _ _

/-- The end of a fight is told as well. -/
theorem Ending.finish_silent (e : Ending) (fighterA : String) :
    (e.silent.finish fighterA).log = (e.finish fighterA).log.keeping Event.isNoStart ∧
      (e.silent.finish fighterA).result = (e.finish fighterA).result :=
  ⟨(Log.keeping_push_of_pos rfl _).symm, rfl⟩

/-- A fight where no start of a turn is recorded is the same fight, with those events left out of
the log. -/
theorem fight_silent (p : Program) (starter other : Fighter) :
    let told := fight (rules.withTurnStarts true) p starter other
    let silent := fight (rules.withTurnStarts false) p starter other
    silent.log = told.log.keeping Event.isNoStart ∧ silent.result = told.result := by
  intro told silent
  have hempty : Log.empty.keeping Event.isNoStart = .empty := rfl
  have hrounds := playRounds_silent rules
    ⟨(p.scriptFor? p.matchup.starter).map Script.body,
      (p.scriptFor? p.matchup.second).map Script.body⟩ p.matchup.maxTurns.toNat 0
    ⟨.fresh starter, .fresh other⟩ .empty
  rw [hempty] at hrounds
  have hsilent : silent = Ending.finish (Ending.silent _) p.matchup.fighterA :=
    congrArg (Ending.finish · p.matchup.fighterA) hrounds
  rw [hsilent]
  exact Ending.finish_silent _ _

end Silent

/-- To record the starts of turns changes nothing else. A program that can be fought can be fought
with these records and without them. The log without them is the other log after they are deleted
and the rest is numbered anew, and the results are equal. -/
theorem turn_starts_only_recorded (rules : Rules) (p : Program) (finished : Finished)
    (h : run rules p = .ok finished) :
    ∃ told silent, run { rules with recordTurnStarts := true } p = .ok told ∧
      run { rules with recordTurnStarts := false } p = .ok silent ∧
      silent.log.records
        = renumbered (told.log.records.filter (·.event.type ≠ .turnStart)) ∧
      silent.result = told.result := by
  obtain ⟨hsound, b, hstages, -⟩ := run_eq_ok_iff.mp h
  have hrun (recorded : Bool) : run (rules.withTurnStarts recorded) p
      = .ok (fight (rules.withTurnStarts recorded) p (b.fighter .starter) (b.fighter .other)) :=
    run_eq_ok_iff.mpr ⟨hsound, { b with rules := rules.withTurnStarts recorded },
      ⟨rfl, hstages.fighter, hstages.script⟩, rfl⟩
  obtain ⟨hlog, hresult⟩ := fight_silent rules p (b.fighter .starter) (b.fighter .other)
  exact ⟨_, _, hrun true, hrun false, hlog ▸ Log.records_keeping, hresult⟩

/-- The duel with the starts of its turns in the log, and without them. -/
theorem turn_starts_only_recorded_duel :
    let rules : Rules := ⟨2, 3, true⟩
    run rules .duel = .ok (fight rules .duel .beto .ana) ∧
      ∃ told silent, run { rules with recordTurnStarts := true } .duel = .ok told ∧
        run { rules with recordTurnStarts := false } .duel = .ok silent ∧
        silent.log.records
          = renumbered (told.log.records.filter (·.event.type ≠ .turnStart)) ∧
        silent.result = told.result :=
  ⟨rfl, turn_starts_only_recorded ⟨2, 3, true⟩ .duel _ rfl⟩

end Lucha.Combat
