import Lucha.Proofs.Combat.Fight
import Lucha.Proofs.Program.Printable

/-!
# Rounds, turns and the end

The log of a fight is its turns in their order and then its end (`InRounds`): round after round the
starter takes its turn and then the other combatant, if they have a script. Within a turn no other
one starts (`Move.startsNone_follow`), so a turn says once that it starts or not at all. The fight
stops with the first turn that leaves a combatant without hit points, and otherwise all rounds are
fought. The end is told twice, in the last record and in the result, and both say the same
(`rounds_and_end`).
-/

namespace Lucha.Combat

/-! ### The start of a turn -/

namespace Move

/-- Within the move no turn starts. -/
def StartsNone (m : Move) : Prop :=
  ∀ ⦃t deed⦄, deed ∈ (m t).1 → deed.type ≠ .turnStart

variable {m m' : Move}

theorem startsNone_rest : rest.StartsNone := fun _ _ h => nomatch h

/-- A single deed that is no start starts none. -/
theorem startsNone_only {deed : Deed} (h : deed.type ≠ .turnStart) : (only deed).StartsNone :=
  fun _ _ hmem => List.mem_singleton.mp hmem ▸ h

/-- Two moves in a row start no turn if neither does. -/
theorem StartsNone.andThen (h : m.StartsNone) (h' : m'.StartsNone) : (m.andThen m').StartsNone :=
  fun _ _ hmem => (List.mem_append.mp hmem).elim (h ·) (h' ·)

/-- Moves that start no turn start none one after the other. -/
theorem StartsNone.all {moves : List Move} (h : ∀ m ∈ moves, m.StartsNone) :
    (all moves).StartsNone :=
  all_induction startsNone_rest StartsNone.andThen h

/-- An action starts no turn. -/
theorem startsNone_act (a : Action) : (act a).StartsNone := by
  intro t deed hmem
  rw [act] at hmem
  split at hmem
  · exact startsNone_only (by simp [Deed.type]) hmem
  · split at hmem <;> exact startsNone_only (by simp [Deed.type]) hmem

/-- To enter a combo starts no turn if what follows starts none. -/
theorem StartsNone.enter (h : m.StartsNone) (c : Combo) : (enter c m).StartsNone := by
  intro t deed hmem
  rw [Move.enter] at hmem
  split at hmem
  · exact startsNone_only (by simp [Deed.type]) hmem
  · exact h hmem

/-- A combo starts no turn if its steps start none. -/
theorem startsNone_perform (c : Combo) (chain : List String)
    {step : List String → String → Move} (h : ∀ chain name, (step chain name).StartsNone) :
    (perform c chain step).StartsNone := by
  intro t deed hmem
  rw [perform] at hmem
  split at hmem
  · have hsteps : (Move.all (c.steps.map (step []))).StartsNone :=
      .all (List.forall_mem_map.mpr fun name _ => h [] name)
    exact (startsNone_only (by simp [Deed.type])).andThen hsteps hmem
  · split at hmem
    · exact startsNone_only (by simp [Deed.type]) hmem
    · split at hmem
      · exact startsNone_rest hmem
      · exact (startsNone_only (by simp [Deed.type])).andThen (h _ _) hmem

/-- What a name stands for starts no turn if no combo does. -/
theorem StartsNone.named (name : String) {ofCombo : Combo → Move}
    (h : ∀ c, (ofCombo c).StartsNone) : (named name ofCombo).StartsNone := by
  intro t deed hmem
  rw [Move.named] at hmem
  split at hmem
  · exact startsNone_rest hmem
  · split at hmem
    · exact h _ hmem
    · split at hmem
      · exact startsNone_act _ hmem
      · exact startsNone_only (by simp [Deed.type]) hmem

/-- A choice starts no turn if neither branch does. -/
theorem StartsNone.branch (h : m.StartsNone) (h' : m'.StartsNone) (condition : Condition) :
    (branch condition m m').StartsNone := by
  intro t deed hmem
  rw [Move.branch] at hmem
  split at hmem
  · exact h hmem
  · exact h' hmem

/-- So no move that scripts are made of starts a turn. -/
theorem closed_startsNone : Closed StartsNone where
  rest := startsNone_rest
  andThen := StartsNone.andThen
  branch condition _ _ h h' := h.branch h' condition
  enter c _ h := h.enter c
  tooDeep _ := startsNone_only (by simp [Deed.type])
  perform := startsNone_perform
  named name _ _ := .named name

/-- No turn starts while a script is followed. -/
theorem startsNone_follow (levels : Nat) (b : Block) : (follow levels b).StartsNone :=
  closed_startsNone.follow levels b

end Move

/-- The deeds of a turn are its start, if starts are recorded, and others that start nothing. -/
theorem Bout.exists_startDeeds_append {b : Bout} {slot : Slot} {turn : TakenTurn} {s : Standing}
    (h : b.turn? slot s = some turn) :
    ∃ acted, turn.deeds = startDeeds b.rules turn.round ++ acted ∧
      ∀ deed ∈ acted, deed.type ≠ .turnStart := by
  obtain ⟨script, hscript, rfl⟩ := Option.map_eq_some_iff.mp h
  refine ⟨(Move.follow b.rules.comboDepth.toNat script (b.turnStart slot s)).1, ?_,
    fun deed hdeed => Move.startsNone_follow _ _ hdeed⟩
  rw [Bout.turnEnd_of_script hscript]

/-! ### The order of the turns -/

/-- The turns of a round: that of the starter and then that of the other combatant, if they have a
script. -/
def roundTurns (p : Program) (round : Nat) : List (Nat × String) :=
  ([Side.starter, .other].filter fun side =>
    (p.scriptFor? (p.matchup.combatant side)).isSome).map fun side =>
      (round, p.matchup.combatant side)

/-- The turns of the rounds up to a number, one round after the other. -/
def roundOrder (p : Program) (rounds : Nat) : List (Nat × String) :=
  (List.range' 1 rounds).flatMap (roundTurns p)

/-- The turns of a round are of that round. -/
theorem round_of_mem_roundTurns {p : Program} {round : Nat} {place : Nat × String}
    (h : place ∈ roundTurns p round) : place.1 = round := by
  obtain ⟨side, -, rfl⟩ := List.mem_map.mp h
  rfl

/-- The schedule goes through the rounds and has both sides in each. -/
theorem schedule_eq (round left : Nat) :
    schedule round left = (List.range' (round + 1) left).flatMap fun round =>
      [Side.starter, .other].map fun side => ⟨round, side⟩ := by
  induction left generalizing round with
  | zero => rfl
  | succ left ih => rw [schedule, ih, List.range'_succ, List.flatMap_cons]; rfl

/-- The turns that may come are those of the rounds. -/
theorem Bout.Stages.order_schedule {b : Bout} {rules : Rules} {p : Program} (h : b.Stages rules p)
    (hkeys : p.fighters.Keyed Fighter.name) (rounds : Nat) :
    b.order (schedule 0 rounds) = roundOrder p rounds := by
  simp only [order, roundOrder, schedule_eq, List.filter_flatMap, List.map_flatMap, List.filter_map,
    List.map_map, Function.comp_def, h.script, h.name_eq hkeys, Option.isSome_map, Nat.zero_add]
  rfl

/-- Turns in order are in the order of the rounds up to that of the last turn. -/
theorem prefix_roundOrder {p : Program} {rounds : Nat} {places : List (Nat × String)}
    {last : Nat × String} (h : places <+: roundOrder p rounds)
    (hlast : places.getLast? = some last) : places <+: roundOrder p last.1 := by
  obtain ⟨round, hround, hmem⟩ := List.mem_flatMap.mp (h.subset (List.mem_of_getLast? hlast))
  obtain rfl := round_of_mem_roundTurns hmem
  obtain ⟨more, rfl⟩ : ∃ more, rounds = last.1 + more :=
    ⟨rounds - last.1, by have := List.mem_range'_1.mp hround; omega⟩
  rw [roundOrder, ← List.range'_append_1, List.flatMap_append] at h
  obtain hshort | hlong := Nat.le_total places.length (roundOrder p last.1).length
  · exact List.prefix_of_prefix_length_le h (List.prefix_append _ _) hshort
  · -- if the turns went on after these rounds, the last one would be of a later round
    obtain ⟨later, rfl⟩ := List.prefix_of_prefix_length_le (List.prefix_append _ _) h hlong
    have hlater := (List.prefix_append_right_inj _).mp h
    rw [List.getLast?_append] at hlast
    cases hend : later.getLast? with
    | none =>
      rw [List.getLast?_eq_none_iff.mp hend, List.append_nil]
      exact List.prefix_rfl
    | some end' =>
      rw [hend, Option.some_or, Option.some.injEq] at hlast
      subst hlast
      obtain ⟨round, hround', hmem'⟩ :=
        List.mem_flatMap.mp (hlater.subset (List.mem_of_getLast? hend))
      have heq := round_of_mem_roundTurns hmem'
      have hle := (List.mem_range'_1.mp hround').1
      omega

/-! ### The end -/

/-- A combatant has no hit points left. -/
def Knockout (p : Program) (s : Standing) : Prop :=
  ∃ side, (s (p.matchup.combatant side)).hp = 0

/-- A bout ends exactly when a combatant of the program has no hit points left. -/
theorem Bout.Stages.isKnockout_iff {b : Bout} {rules : Rules} {p : Program} (h : b.Stages rules p)
    (hkeys : p.fighters.Keyed Fighter.name) {s : Standing} :
    b.isKnockout s = true ↔ Knockout p s := by
  have hside (side : Side) : (s.contender (b.fighter side)).isKnockedOut = true ↔
      (s (p.matchup.combatant side)).hp = 0 := by
    rw [Contender.isKnockedOut, decide_eq_true_iff, Standing.contender, h.name_eq hkeys]
  rw [isKnockout, Bool.or_eq_true, hside, hside]
  constructor
  · rintro (hstarter | hother)
    · exact ⟨.starter, hstarter⟩
    · exact ⟨.other, hother⟩
  · rintro ⟨side, hdown⟩
    cases side with
    | starter => exact .inl hdown
    | other => exact .inr hdown

/-- What is told about the hit points of both combatants says whether there is a knockout. -/
theorem knockout_iff_of_tells {p : Program} (hkeys : p.fighters.Keyed Fighter.name)
    (hsound : p.Sound) {s : Standing} {a b : Snapshot} (ha : Tells p s p.matchup.fighterA a)
    (hb : Tells p s p.matchup.fighterB b) : Knockout p s ↔ a.hp = 0 ∨ b.hp = 0 := by
  have hhp {name : String} {snapshot : Snapshot} (h : Tells p s name snapshot) :
      snapshot.hp = (s name).hp :=
    congrArg Snapshot.hp (h.eq hkeys)
  rw [hhp ha, hhp hb]
  have hsides : Knockout p s ↔ (s p.matchup.starter).hp = 0 ∨ (s p.matchup.second).hp = 0 := by
    constructor
    · rintro ⟨_ | _, hdown⟩
      · exact .inl hdown
      · exact .inr hdown
    · rintro (hdown | hdown)
      · exact ⟨.starter, hdown⟩
      · exact ⟨.other, hdown⟩
  rw [hsides]
  obtain ⟨hstarter, hsecond⟩ | ⟨hstarter, hsecond⟩ := hsound.combatants_eq
  · rw [hstarter, hsecond]
  · rw [hstarter, hsecond, or_comm]

/-- The turns of a fight, one after the other, and how it stopped: with the first turn that left a
combatant without hit points, or with the last round. -/
structure InRounds (rules : Rules) (p : Program) (finished : Finished) (turns : List TakenTurn) :
    Prop where
  log : finished.log.entries.toList = turns.flatMap TakenTurn.entries
    ++ [⟨finished.result.roundsPlayed, .combatEnd finished.result.fighterA finished.result.fighterB
      finished.result.outcome⟩]
  fighterA : Tells p ((opening p).replay (turns.flatMap TakenTurn.events)) p.matchup.fighterA
    finished.result.fighterA
  fighterB : Tells p ((opening p).replay (turns.flatMap TakenTurn.events)) p.matchup.fighterB
    finished.result.fighterB
  outcome : finished.result.outcome = .between finished.result.fighterA finished.result.fighterB
  order : turns.map TakenTurn.place <+: roundOrder p finished.result.roundsPlayed
  starts : ∀ turn ∈ turns, ∃ acted,
    turn.deeds = (if rules.recordTurnStarts then [.startTurn turn.round] else []) ++ acted ∧
      ∀ deed ∈ acted, deed.type ≠ .turnStart
  between : ∀ earlier later, turns = earlier ++ later → earlier ≠ [] → later ≠ [] →
    ¬ Knockout p ((opening p).replay (earlier.flatMap TakenTurn.events))
  knockout : finished.result.knockout = true →
    Knockout p ((opening p).replay (turns.flatMap TakenTurn.events)) ∧
      ∃ last, turns.getLast? = some last ∧ last.round = finished.result.roundsPlayed
  lasted : finished.result.knockout = false →
    finished.result.roundsPlayed = p.matchup.maxTurns.toNat ∧
      turns.map TakenTurn.place = roundOrder p finished.result.roundsPlayed ∧
        (turns ≠ [] → ¬ Knockout p ((opening p).replay (turns.flatMap TakenTurn.events)))

/-- A knockout comes with the last turn: it leaves a combatant without hit points, and its round is
the last one that is counted. -/
theorem Bout.Fought.exists_last_of_knockout {rules : Rules} {p : Program} {finished : Finished}
    {b : Bout} (hfought : b.Fought p finished) (hstages : b.Stages rules p)
    (hkeys : p.fighters.Keyed Fighter.name) (h : finished.result.knockout = true) :
    let turns := (b.play (schedule 0 p.matchup.maxTurns.toNat) (opening p)).turns
    Knockout p ((opening p).replay (turns.flatMap TakenTurn.events)) ∧
      ∃ last, turns.getLast? = some last ∧ last.round = finished.result.roundsPlayed := by
  rw [hfought.knockout] at h
  obtain ⟨round, hend⟩ := Option.isSome_iff_exists.mp h
  obtain ⟨last, hlast, rfl, hdown⟩ := Bout.exists_last_of_knockout hend
  refine ⟨(hstages.isKnockout_iff hkeys).mp hdown, last, hlast, ?_⟩
  rw [hfought.roundsPlayed, hend]
  rfl

/-- A fight is made of turns in rounds. -/
theorem exists_inRounds {rules : Rules} {p : Program} {finished : Finished}
    (hkeys : p.fighters.Keyed Fighter.name) (h : run rules p = .ok finished) :
    ∃ turns, InRounds rules p finished turns := by
  obtain ⟨b, hstages, -, hfought⟩ := exists_fought hkeys h
  have hplace := b.place_play (schedule 0 p.matchup.maxTurns.toNat) (opening p)
  rw [hstages.order_schedule hkeys] at hplace
  have hround := hfought.roundsPlayed
  have hknockout := hfought.knockout
  have hstarts : ∀ turn ∈ (b.play (schedule 0 p.matchup.maxTurns.toNat) (opening p)).turns,
      ∃ acted, turn.deeds = startDeeds rules turn.round ++ acted ∧
        ∀ deed ∈ acted, deed.type ≠ .turnStart := by
    intro turn hturn
    obtain ⟨earlier, later, hsplit⟩ := List.append_of_mem hturn
    obtain ⟨slot, -, hslot⟩ := Bout.exists_turn?_of_play hsplit
    exact hstages.rules ▸ Bout.exists_startDeeds_append hslot
  have hbetween : ∀ earlier later,
      (b.play (schedule 0 p.matchup.maxTurns.toNat) (opening p)).turns = earlier ++ later →
        earlier ≠ [] → later ≠ [] →
          ¬ Knockout p ((opening p).replay (earlier.flatMap TakenTurn.events)) := by
    intro earlier later hsplit hearlier hlater
    rw [← hstages.isKnockout_iff hkeys, Bout.isKnockout_between hsplit hearlier hlater]
    exact Bool.false_ne_true
  cases hend : (b.play (schedule 0 p.matchup.maxTurns.toNat) (opening p)).knockout? with
  | none =>
    rw [hend] at hround hknockout
    refine ⟨_, hfought.log, hfought.fighterA, hfought.fighterB, hfought.outcome,
      hround ▸ hplace.1, hstarts, hbetween,
      fun hko => absurd (hknockout.symm.trans hko) Bool.false_ne_true,
      fun _ => ⟨hround, hround ▸ hplace.2 hend, fun hne => ?_⟩⟩
    rw [← hstages.isKnockout_iff hkeys, Bout.isKnockout_of_lasted hend hne]
    exact Bool.false_ne_true
  | some round =>
    rw [hend] at hround hknockout
    obtain ⟨-, last, hlast, hlastRound⟩ :=
      hfought.exists_last_of_knockout hstages hkeys hknockout
    have hlastPlace : ((b.play (schedule 0 p.matchup.maxTurns.toNat)
        (opening p)).turns.map TakenTurn.place).getLast? = some last.place := by
      rw [List.getLast?_map, hlast]
      rfl
    exact ⟨_, hfought.log, hfought.fighterA, hfought.fighterB, hfought.outcome,
      hlastRound ▸ prefix_roundOrder hplace.1 hlastPlace, hstarts, hbetween,
      hfought.exists_last_of_knockout hstages hkeys,
      fun hko => absurd (hko.symm.trans hknockout) Bool.false_ne_true⟩

namespace InRounds

variable {rules : Rules} {p : Program} {finished : Finished} {turns : List TakenTurn}

/-- The end of a fight is its last record and no other one. -/
theorem ending (h : InRounds rules p finished turns) :
    let ending : Record := ⟨finished.log.size - 1, finished.result.roundsPlayed,
      .combatEnd finished.result.fighterA finished.result.fighterB finished.result.outcome⟩
    finished.log.last? = some ending ∧ finished.log.ofType .combatEnd = [ending] := by
  have hrecords := Log.records_of_concat h.log
  rw [Log.last?, Log.ofType, hrecords, List.filter_append]
  refine ⟨List.getLast?_concat, ?_⟩
  -- the records before it are deeds
  have hdeeds : ((turns.flatMap TakenTurn.entries).mapIdx Entry.record).filter
      (·.event.type = .combatEnd) = [] := by
    rw [List.filter_eq_nil_iff]
    intro r hr
    obtain ⟨id, hid, rfl⟩ := List.mem_mapIdx.mp hr
    obtain ⟨turn, -, hentry⟩ := List.mem_flatMap.mp (List.getElem_mem hid)
    obtain ⟨event, hevent, heq⟩ := List.mem_map.mp hentry
    obtain ⟨deed, -, rfl⟩ := List.mem_map.mp hevent
    rw [Entry.record, ← heq]
    cases deed <;> simp [Event.type, Deed.type]
  rw [hdeeds]
  rfl

/-- The end of a fight changes nothing. -/
theorem replay_events (h : InRounds rules p finished turns) (s : Standing) :
    s.replay finished.log.events = s.replay (turns.flatMap TakenTurn.events) := by
  rw [Log.events, h.log, List.map_append, TakenTurn.map_event_entries, Standing.replay_append]
  rfl

/-- Turns are taken only of combatants that have a script. -/
theorem exists_script (h : InRounds rules p finished turns) (hne : turns ≠ []) :
    ∃ side, (p.scriptFor? (p.matchup.combatant side)).isSome := by
  obtain ⟨turn, hturn⟩ := List.exists_mem_of_ne_nil _ hne
  obtain ⟨round, -, hplace⟩ := List.mem_flatMap.mp
    (h.order.subset (List.mem_map_of_mem (f := TakenTurn.place) hturn))
  obtain ⟨side, hside, -⟩ := List.mem_map.mp hplace
  exact ⟨side, (List.mem_filter.mp hside).2⟩

/-- Where all rounds are fought, turns are taken if somebody has a script. -/
theorem ne_nil_of_script (h : InRounds rules p finished turns)
    (hlasted : finished.result.knockout = false) (hturns : 0 < p.matchup.maxTurns) {side : Side}
    (hscript : (p.scriptFor? (p.matchup.combatant side)).isSome) : turns ≠ [] := by
  obtain ⟨hrounds, hplaces, -⟩ := h.lasted hlasted
  have hone : 1 ∈ List.range' 1 p.matchup.maxTurns.toNat :=
    List.mem_range'_1.mpr
      ⟨Nat.le_refl 1, Nat.lt_add_of_pos_right (UInt32.lt_iff_toNat_lt.mp hturns)⟩
  have hside : side ∈ [Side.starter, .other].filter fun side =>
      (p.scriptFor? (p.matchup.combatant side)).isSome :=
    List.mem_filter.mpr ⟨by cases side <;> simp, hscript⟩
  have hfirst : (1, p.matchup.combatant side) ∈ roundOrder p p.matchup.maxTurns.toNat :=
    List.mem_flatMap.mpr ⟨1, hone, List.mem_map_of_mem hside⟩
  rintro rfl
  rw [← hrounds, ← hplaces] at hfirst
  cases hfirst

end InRounds

/-- The numbers of the records count from zero. The last record is the end of the fight and no other
one is; it has the last round that was begun, and it tells what the result tells: how both
combatants stand after everything that is recorded, and who won. The records before it are those of
the turns in their order. There is a knockout if and only if somebody has a script, so that turns
are taken at all, and a combatant is left without hit points. -/
theorem rounds_and_end (rules : Rules) (p : Program) (finished : Finished)
    (hkeys : p.fighters.Keyed Fighter.name) (h : run rules p = .ok finished) :
    let log := finished.log
    let r := finished.result
    let ending : Record :=
      ⟨log.size - 1, r.roundsPlayed, .combatEnd r.fighterA r.fighterB r.outcome⟩
    log.records.map Record.id = List.range log.size ∧
      log.last? = some ending ∧ log.ofType .combatEnd = [ending] ∧
      Tells p ((opening p).replay log.events) p.matchup.fighterA r.fighterA ∧
      Tells p ((opening p).replay log.events) p.matchup.fighterB r.fighterB ∧
      r.outcome = .between r.fighterA r.fighterB ∧
      (∃ turns, InRounds rules p finished turns) ∧
      (r.knockout = true ↔
        (∃ side, (p.scriptFor? (p.matchup.combatant side)).isSome) ∧
          (r.fighterA.hp = 0 ∨ r.fighterB.hp = 0)) := by
  intro log r ending
  obtain ⟨turns, hturns⟩ := exists_inRounds hkeys h
  have hsound := (run_eq_ok_iff.mp h).1
  obtain ⟨hlast, honly⟩ := hturns.ending
  have hreplay := hturns.replay_events (opening p)
  have hA : Tells p ((opening p).replay log.events) p.matchup.fighterA r.fighterA :=
    hreplay ▸ hturns.fighterA
  have hB : Tells p ((opening p).replay log.events) p.matchup.fighterB r.fighterB :=
    hreplay ▸ hturns.fighterB
  refine ⟨log.map_id_records, hlast, honly, hA, hB, hturns.outcome, ⟨turns, hturns⟩, ?_⟩
  rw [← knockout_iff_of_tells hkeys hsound hA hB, hreplay]
  constructor
  · intro hknockout
    obtain ⟨hdown, last, hmem, -⟩ := hturns.knockout hknockout
    exact ⟨hturns.exists_script (List.ne_nil_of_mem (List.mem_of_getLast? hmem)), hdown⟩
  · rintro ⟨⟨side, hscript⟩, hdown⟩
    by_contra hlasted
    rw [Bool.not_eq_true] at hlasted
    have hne := hturns.ne_nil_of_script hlasted hsound.maxTurns hscript
    exact (hturns.lasted hlasted).2.2 hne hdown

/-- The rounds and the end of a duel. -/
theorem rounds_and_end_duel :
    let finished := fight {} .duel .beto .ana
    let log := finished.log
    let r := finished.result
    let ending : Record :=
      ⟨log.size - 1, r.roundsPlayed, .combatEnd r.fighterA r.fighterB r.outcome⟩
    Program.duel.fighters.Keyed Fighter.name ∧ run {} .duel = .ok finished ∧
      log.records.map Record.id = List.range log.size ∧
      log.last? = some ending ∧ log.ofType .combatEnd = [ending] ∧
      Tells .duel ((opening .duel).replay log.events) "Ana" r.fighterA ∧
      Tells .duel ((opening .duel).replay log.events) "Beto" r.fighterB ∧
      r.outcome = .between r.fighterA r.fighterB ∧
      (∃ turns, InRounds {} .duel finished turns) ∧
      (r.knockout = true ↔
        (∃ side, (Program.duel.scriptFor? (Program.duel.matchup.combatant side)).isSome) ∧
          (r.fighterA.hp = 0 ∨ r.fighterB.hp = 0)) :=
  ⟨by decide, rfl, rounds_and_end {} .duel _ (by decide) rfl⟩

end Lucha.Combat
