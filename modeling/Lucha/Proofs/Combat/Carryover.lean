import Lucha.Proofs.Combat.Rounds
import Lucha.Proofs.Combat.Succession

/-!
# What carries over from round to round

Nothing carries over from a round to the next one but hit points and stamina
(`nothing_else_carries_over`). The contenders stay the fighters that they are
(`Move.keepsFighters_follow`), the budget of combos is that of the rules in every turn, and the
number of a round shows in nothing but the starts of its turns (`playRound_inRound`). So a round is
determined by the four quantities at its start, and one that changes none of them is repeated to the
end.
-/

namespace Lucha.Combat

/-! ### The contenders -/

/-- Hit points and stamina of a contender. -/
def Contender.vitals (c : Contender) : Vitals :=
  ⟨c.hp, c.stamina⟩

/-- Two states of a fighter are the same, if hit points and stamina are. -/
theorem Contender.eq_of_vitals {c c' : Contender} (hfighter : c.fighter = c'.fighter)
    (hvitals : c.vitals = c'.vitals) : c = c' := by
  obtain ⟨hhp, hstamina⟩ := Vitals.mk.inj hvitals
  cases c
  cases c'
  simp_all

/-- The contender on a side. -/
def Pair.on (pair : Pair) : Side → Contender
  | .starter => pair.starter
  | .other => pair.other

/-- Hit points and stamina of both contenders. -/
def Pair.vitals (pair : Pair) (side : Side) : Vitals :=
  (pair.on side).vitals

/-- The contenders of two pairs are the same fighters. -/
def Pair.Alike (pair pair' : Pair) : Prop :=
  ∀ side, (pair.on side).fighter = (pair'.on side).fighter

/-- Contenders that were declared alike are the same if their hit points and stamina are. -/
theorem Pair.Alike.eq_of_vitals {pair pair' : Pair} (h : pair.Alike pair')
    (hvitals : pair.vitals = pair'.vitals) : pair = pair' := by
  have hon (side : Side) : pair.on side = pair'.on side :=
    Contender.eq_of_vitals (h side) (congrFun hvitals side)
  cases pair
  cases pair'
  exact congrArg₂ Pair.mk (hon .starter) (hon .other)

/-- A turn leaves both fighters as declared. -/
theorem fighter_takeTurn (rules : Rules) (round : Nat) (script : Option Block)
    (actor target : Contender) :
    let e := takeTurn rules round script actor target
    e.actor.fighter = actor.fighter ∧ e.target.fighter = target.fighter := by
  cases script with
  | none => exact ⟨rfl, rfl⟩
  | some block => exact Move.keepsFighters_follow _ block _

/-- A round leaves both fighters as declared. -/
theorem alike_playRound (rules : Rules) (scripts : Scripts) (round : Nat) (pair : Pair) :
    (playRound rules scripts round pair).pair.Alike pair := by
  obtain ⟨hactor, htarget⟩ := fighter_takeTurn rules round scripts.starter pair.starter pair.other
  intro side
  simp only [playRound]
  split
  · cases side with
    | starter => exact hactor
    | other => exact htarget
  · have hsecond := fighter_takeTurn rules round scripts.other
      (takeTurn rules round scripts.starter pair.starter pair.other).target
      (takeTurn rules round scripts.starter pair.starter pair.other).actor
    cases side with
    | starter => exact hsecond.2.trans hactor
    | other => exact hsecond.1.trans htarget

/-- In all rounds of a fight the fighters are as declared. -/
theorem alike_of_mem_roundsAfter {rules : Rules} {scripts : Scripts} {left round : Nat}
    {pair : Pair} {r : PlayedRound} (h : r ∈ roundsAfter rules scripts left round pair) :
    r.start.Alike pair := by
  induction left generalizing round pair with
  | zero => cases h
  | succ left ih =>
    obtain _ | ⟨_, hlater⟩ := h
    · exact fun _ => rfl
    · split at hlater
      · cases hlater
      · have hplayed := alike_playRound rules scripts (round + 1) pair
        exact fun side => (ih hlater side).trans (hplayed side)

/-! ### The number of the round -/

/-- The deed in another round: what tells the round is the start of a turn. -/
def Deed.inRound (round : Nat) : Deed → Deed
  | .startTurn _ => .startTurn round
  | deed => deed

/-- An event is in another round if its deed is. -/
theorem Event.inRound_deed (round : Nat) (actor : String) (deed : Deed) :
    (Event.deed actor deed).inRound round = .deed actor (deed.inRound round) := by
  cases deed <;> rfl

/-- Only the start of a turn tells its round. -/
theorem Deed.inRound_of_ne {deed : Deed} (h : deed.type ≠ .turnStart) (round : Nat) :
    deed.inRound round = deed := by
  cases deed with
  | startTurn => exact absurd rfl h
  | _ => rfl

/-- A turn is the same in another round, but for what its start tells. -/
theorem takeTurn_inRound (rules : Rules) (round round' : Nat) (script : Option Block)
    (actor target : Contender) :
    let e := takeTurn rules round script actor target
    takeTurn rules round' script actor target
      = { e with deeds := e.deeds.map (Deed.inRound round') } := by
  cases script with
  | none => rfl
  | some block =>
    have hfree (t : Turn) :
        (Move.follow rules.comboDepth.toNat block t).1.map (Deed.inRound round')
          = (Move.follow rules.comboDepth.toNat block t).1 :=
      (List.map_congr_left fun deed hdeed =>
        Deed.inRound_of_ne (Move.startsNone_follow _ _ hdeed) round').trans (List.map_id _)
    simp only [takeTurn, List.map_append, hfree]
    split <;> rfl

/-- The deeds of an actor that are told of another round are its events told of that round. -/
theorem map_inRound_deeds (round : Nat) (actor : String) (deeds : List Deed) :
    (deeds.map (Deed.inRound round)).map (Event.deed actor)
      = (deeds.map (.deed actor)).map (Event.inRound round) := by
  rw [List.map_map, List.map_map]
  exact List.map_congr_left fun _ _ => (Event.inRound_deed ..).symm

/-- A round is the same with another number, but for what the starts of its turns tell. -/
theorem playRound_inRound (rules : Rules) (scripts : Scripts) (round round' : Nat) (pair : Pair) :
    let e := playRound rules scripts round pair
    playRound rules scripts round' pair
      = { e with events := e.events.map (Event.inRound round') } := by
  simp only [playRound, takeTurn_inRound rules round round', map_inRound_deeds]
  split <;> simp

/-! ### Turns of a round -/

/-- A turn that is taken in a round. -/
structure PlayedTurn where
  round : Nat
  side : Side
  script : Block
  /-- The contender whose turn it is, when it starts. -/
  actor : Contender
  /-- The other contender, when the turn starts. -/
  target : Contender
  came : TurnEnd

/-- The events of a turn. -/
def PlayedTurn.events (turn : PlayedTurn) : List Event :=
  turn.came.deeds.map (.deed turn.actor.name)

/-- The script of a side. -/
def Scripts.on (scripts : Scripts) : Side → Option Block
  | .starter => scripts.starter
  | .other => scripts.other

/-- The turn of a side, if it has a script. -/
def turnOf? (rules : Rules) (scripts : Scripts) (round : Nat) (side : Side)
    (actor target : Contender) : Option PlayedTurn :=
  (scripts.on side).map fun script =>
    ⟨round, side, script, actor, target, takeTurn rules round (some script) actor target⟩

/-- The turns of a round: that of the starter and, unless it ends the fight, that of the other. -/
def turnsOf (rules : Rules) (scripts : Scripts) (r : PlayedRound) : List PlayedTurn :=
  let first := takeTurn rules r.number scripts.starter r.start.starter r.start.other
  (turnOf? rules scripts r.number .starter r.start.starter r.start.other).toList ++
    if first.knockout then []
    else (turnOf? rules scripts r.number .other first.target first.actor).toList

section turnsOf

variable {rules : Rules} {scripts : Scripts}

/-- What is done in a turn is what its side does, if it has a script. -/
theorem flatMap_events_turnOf? (rules : Rules) (scripts : Scripts) (round : Nat) (side : Side)
    (actor target : Contender) :
    (turnOf? rules scripts round side actor target).toList.flatMap PlayedTurn.events
      = (takeTurn rules round (scripts.on side) actor target).deeds.map (.deed actor.name) := by
  rw [turnOf?]
  cases scripts.on side with
  | none => rfl
  | some script => simp [PlayedTurn.events]

/-- The events of a round are those of its turns. -/
theorem flatMap_events_turnsOf {r : PlayedRound}
    (h : r.came = playRound rules scripts r.number r.start) :
    (turnsOf rules scripts r).flatMap PlayedTurn.events = r.came.events := by
  obtain ⟨-, htarget⟩ :=
    fighter_takeTurn rules r.number scripts.starter r.start.starter r.start.other
  have hname : (takeTurn rules r.number scripts.starter r.start.starter r.start.other).target.name
      = r.start.other.name := congrArg Fighter.name htarget
  rw [h, playRound, turnsOf, List.flatMap_append, flatMap_events_turnOf?]
  simp only [Scripts.on]
  split
  · exact List.append_nil _
  · rw [flatMap_events_turnOf?, hname]
    rfl

/-- A turn is what comes of the script of its side. -/
theorem of_mem_turnsOf {r : PlayedRound} {turn : PlayedTurn} (h : turn ∈ turnsOf rules scripts r) :
    turn.round = r.number ∧ scripts.on turn.side = some turn.script ∧
      turn.came = takeTurn rules r.number (some turn.script) turn.actor turn.target ∧
      turn.actor.fighter = (r.start.on turn.side).fighter ∧
      turn.target.fighter = (r.start.on turn.side.opposite).fighter := by
  have hturnOf {side : Side} {actor target : Contender}
      (h : turn ∈ (turnOf? rules scripts r.number side actor target).toList) :
      scripts.on side = some turn.script ∧ turn = ⟨r.number, side, turn.script, actor, target,
        takeTurn rules r.number (some turn.script) actor target⟩ := by
    obtain ⟨script, hscript, rfl⟩ := Option.map_eq_some_iff.mp (Option.mem_toList.mp h)
    exact ⟨hscript, rfl⟩
  obtain ⟨hactor, htarget⟩ :=
    fighter_takeTurn rules r.number scripts.starter r.start.starter r.start.other
  rw [turnsOf] at h
  obtain hfirst | hsecond := List.mem_append.mp h
  · obtain ⟨hscript, heq⟩ := hturnOf hfirst
    rw [heq]
    exact ⟨rfl, hscript, rfl, rfl, rfl⟩
  · split at hsecond
    · cases hsecond
    · obtain ⟨hscript, heq⟩ := hturnOf hsecond
      rw [heq]
      exact ⟨rfl, hscript, rfl, htarget, hactor⟩

end turnsOf

/-! ### Rounds that are repeated -/

/-- A round is another one once more: the same events, but for the number of the round, the same
hit points and stamina at the end, and the same knockout or none. -/
structure PlayedRound.Repeats (r' r : PlayedRound) : Prop where
  events : r'.came.events = r.came.events.map (Event.inRound r'.number)
  vitals : r'.came.pair.vitals = r.came.pair.vitals
  knockout : r'.came.knockout = r.came.knockout

/-- A turn is another one once more. -/
structure PlayedTurn.Repeats (turn' turn : PlayedTurn) : Prop where
  deeds : turn'.came.deeds = turn.came.deeds.map (Deed.inRound turn'.round)
  actor : turn'.came.actor.vitals = turn.came.actor.vitals
  target : turn'.came.target.vitals = turn.came.target.vitals
  knockout : turn'.came.knockout = turn.came.knockout

section repeats

variable {rules : Rules} {scripts : Scripts} {r r' : PlayedRound}

/-- Rounds that start alike come out alike. -/
theorem PlayedRound.Repeats.of_start_eq (h : r.came = playRound rules scripts r.number r.start)
    (h' : r'.came = playRound rules scripts r'.number r'.start) (hstart : r'.start = r.start) :
    r'.Repeats r := by
  rw [hstart, playRound_inRound rules scripts r.number, ← h] at h'
  exact ⟨by rw [h'], by rw [h'], by rw [h']⟩

/-- After a round that changes nothing all rounds start as it did. -/
theorem start_eq_of_unchanged {later : List PlayedRound}
    (hcame : ∀ r' ∈ r :: later, r'.came = playRound rules scripts r'.number r'.start)
    (hchain : (r :: later).IsChain fun r next =>
      r.came.knockout = false ∧ next.start = r.came.pair)
    (hstill : r.came.pair = r.start) : ∀ r' ∈ later, r'.start = r.start := by
  induction later generalizing r with
  | nil => exact fun r' hr' => nomatch hr'
  | cons next later ih =>
    obtain ⟨hr, hlater⟩ := List.forall_mem_cons.mp hcame
    obtain ⟨⟨-, hnext⟩, hchain⟩ := List.isChain_cons_cons.mp hchain
    have hstart : next.start = r.start := hnext.trans hstill
    have hpair : next.came.pair = next.start := by
      rw [(List.forall_mem_cons.mp hlater).1, hstart,
        playRound_inRound rules scripts r.number, ← hr]
      exact hstill
    refine List.forall_mem_cons.mpr ⟨hstart, fun r' hr' => ?_⟩
    exact (ih hlater hchain hpair r' hr').trans hstart

end repeats

/-- A round that is no knockout and changes nothing is repeated until all rounds are fought. -/
theorem PlayedOut.repeats_to_end {rules : Rules} {p : Program} {finished : Finished}
    (h : PlayedOut rules p finished) {earlier later : List PlayedRound} {r : PlayedRound}
    (hsplit : rounds rules p = earlier ++ r :: later) (hgoes : r.came.knockout = false)
    (hvitals : r.came.pair.vitals = r.start.vitals) :
    (∀ r' ∈ later, r'.Repeats r) ∧ finished.result.knockout = false ∧
      finished.result.roundsPlayed = p.matchup.maxTurns.toNat := by
  have hcame : ∀ r' ∈ r :: later, r'.came = playRound rules (scriptsOf p) r'.number r'.start :=
    fun r' hr' => h.came r' (hsplit ▸ List.mem_append_right earlier hr')
  have hchain := h.chain
  rw [hsplit, List.isChain_append] at hchain
  have hr := hcame r List.mem_cons_self
  have hstill : r.came.pair = r.start := by
    refine Pair.Alike.eq_of_vitals ?_ hvitals
    rw [hr]
    exact alike_playRound rules _ _ _
  have hrepeats : ∀ r' ∈ later, r'.Repeats r := fun r' hr' =>
    .of_start_eq hr (hcame r' (List.mem_cons_of_mem _ hr'))
      (start_eq_of_unchanged hcame hchain.2.1 hstill r' hr')
  -- so the last round is no knockout either
  have hend : finished.result.knockout = false := by
    have hending := h.ending
    rw [hsplit, List.getLast?_append, List.getLast?_cons, Option.some_or, Option.map_some,
      Option.some.injEq] at hending
    cases hlast : later.getLast? with
    | none => simpa [hlast, hgoes] using hending.symm
    | some last =>
      have hknockout := (hrepeats last (List.mem_of_getLast? hlast)).knockout
      simpa [hlast, hknockout, hgoes] using hending.symm
  exact ⟨hrepeats, hend, h.lasted hend⟩

/-- A turn starts with the whole budget: its deeds are its start and what comes of the script from
there, whatever was done before. -/
structure PlayedTurn.StartsAfresh (turn : PlayedTurn) (rules : Rules) (scripts : Scripts) :
    Prop where
  script : scripts.on turn.side = some turn.script
  deeds : turn.came.deeds = startDeeds rules turn.round ++
    (Move.follow rules.comboDepth.toNat turn.script
      ⟨turn.actor, turn.target, rules.maxCombosPerTurn.toNat, false⟩).1

/-- Every turn of a round starts with the whole budget. -/
theorem startsAfresh_of_mem_turnsOf {rules : Rules} {scripts : Scripts} {r : PlayedRound}
    {turn : PlayedTurn} (h : turn ∈ turnsOf rules scripts r) : turn.StartsAfresh rules scripts := by
  obtain ⟨hround, hscript, hcame, -⟩ := of_mem_turnsOf h
  exact ⟨hscript, by rw [hcame, hround]; rfl⟩

/-- Turns of a side from the same contenders are the same. -/
theorem PlayedTurn.Repeats.of_vitals {rules : Rules} {scripts : Scripts} {r r' : PlayedRound}
    {turn turn' : PlayedTurn} (halike : r'.start.Alike r.start)
    (h : turn ∈ turnsOf rules scripts r) (h' : turn' ∈ turnsOf rules scripts r')
    (hside : turn'.side = turn.side) (hactor : turn'.actor.vitals = turn.actor.vitals)
    (htarget : turn'.target.vitals = turn.target.vitals) : turn'.Repeats turn := by
  obtain ⟨hround, hscript, hcame, hfighter, hopponent⟩ := of_mem_turnsOf h
  obtain ⟨hround', hscript', hcame', hfighter', hopponent'⟩ := of_mem_turnsOf h'
  rw [hside] at hscript' hfighter' hopponent'
  have hsame : turn'.script = turn.script := Option.some.inj (hscript'.symm.trans hscript)
  have hactor : turn'.actor = turn.actor := Contender.eq_of_vitals
    (hfighter'.trans ((halike turn.side).trans hfighter.symm)) hactor
  have htarget : turn'.target = turn.target := Contender.eq_of_vitals
    (hopponent'.trans ((halike turn.side.opposite).trans hopponent.symm)) htarget
  rw [hsame, hactor, htarget, takeTurn_inRound rules r.number, ← hcame, ← hround'] at hcame'
  exact ⟨by rw [hcame'], by rw [hcame'], by rw [hcame'], by rw [hcame']⟩

/-- Nothing but hit points and stamina carries over between the rounds of a program, in one fight
or in two that may last for different numbers of rounds. Rounds from the same quantities are the
same, and so are turns; each turn has the whole budget of combos; and a round that is no knockout
and changes nothing is repeated until all rounds are fought. -/
theorem nothing_else_carries_over {rules : Rules} {p : Program} {limit limit' : Quantity}
    {finished finished' : Finished} (h : run rules (p.lasting limit) = .ok finished)
    (h' : run rules (p.lasting limit') = .ok finished') :
    PlayedOut rules (p.lasting limit) finished ∧ PlayedOut rules (p.lasting limit') finished' ∧
      (∀ r ∈ rounds rules (p.lasting limit), ∀ r' ∈ rounds rules (p.lasting limit'),
        r'.start.vitals = r.start.vitals → r'.Repeats r) ∧
      (∀ r ∈ rounds rules (p.lasting limit), ∀ r' ∈ rounds rules (p.lasting limit'),
        ∀ turn ∈ turnsOf rules (scriptsOf p) r, ∀ turn' ∈ turnsOf rules (scriptsOf p) r',
          turn'.side = turn.side → turn'.actor.vitals = turn.actor.vitals →
            turn'.target.vitals = turn.target.vitals → turn'.Repeats turn) ∧
      (∀ r ∈ rounds rules (p.lasting limit),
        r.came.events = (turnsOf rules (scriptsOf p) r).flatMap PlayedTurn.events ∧
          ∀ turn ∈ turnsOf rules (scriptsOf p) r, turn.StartsAfresh rules (scriptsOf p)) ∧
      ∀ earlier r later, rounds rules (p.lasting limit) = earlier ++ r :: later →
        r.came.knockout = false → r.came.pair.vitals = r.start.vitals →
          (∀ r' ∈ later, r'.Repeats r) ∧ finished.result.knockout = false ∧
            finished.result.roundsPlayed = limit.toNat := by
  have hplayed := playedOut_of_run h
  have hplayed' := playedOut_of_run h'
  obtain ⟨-, b, hstages, -⟩ := run_eq_ok_iff.mp h
  -- in all rounds of both fights the contenders are the combatants of the program
  have hopening {turns : Quantity} {r : PlayedRound} (hr : r ∈ rounds rules (p.lasting turns)) :
      r.start.Alike ⟨.fresh (b.fighter .starter), .fresh (b.fighter .other)⟩ := by
    have hrounds := rounds_eq_of_stages (hstages.lasting turns)
    exact alike_of_mem_roundsAfter (hrounds ▸ hr)
  have halike {turns turns' : Quantity} {r r' : PlayedRound}
      (hr : r ∈ rounds rules (p.lasting turns)) (hr' : r' ∈ rounds rules (p.lasting turns')) :
      r'.start.Alike r.start :=
    fun side => (hopening hr' side).trans (hopening hr side).symm
  refine ⟨hplayed, hplayed', fun r hr r' hr' hvitals => ?_,
    fun r hr r' hr' turn hturn turn' hturn' => .of_vitals (halike hr hr') hturn hturn',
    fun r hr => ⟨(flatMap_events_turnsOf (hplayed.came r hr)).symm, fun turn hturn =>
      startsAfresh_of_mem_turnsOf hturn⟩, fun earlier r later => hplayed.repeats_to_end⟩
  exact .of_start_eq (hplayed.came r hr) (hplayed'.came r' hr')
    ((halike hr hr').eq_of_vitals hvitals)

/-- The rounds of one fight, and those of another that goes on longer. -/
theorem nothing_else_carries_over_duel :
    let finished := fight {} (Program.duel.lasting 3) .beto .ana
    let finished' := fight {} (Program.duel.lasting 5) .beto .ana
    run {} (Program.duel.lasting 3) = .ok finished ∧
      run {} (Program.duel.lasting 5) = .ok finished' ∧
      PlayedOut {} (Program.duel.lasting 3) finished ∧
      PlayedOut {} (Program.duel.lasting 5) finished' ∧
      (∀ r ∈ rounds {} (Program.duel.lasting 3), ∀ r' ∈ rounds {} (Program.duel.lasting 5),
        r'.start.vitals = r.start.vitals → r'.Repeats r) ∧
      (∀ r ∈ rounds {} (Program.duel.lasting 3), ∀ r' ∈ rounds {} (Program.duel.lasting 5),
        ∀ turn ∈ turnsOf {} (scriptsOf .duel) r, ∀ turn' ∈ turnsOf {} (scriptsOf .duel) r',
          turn'.side = turn.side → turn'.actor.vitals = turn.actor.vitals →
            turn'.target.vitals = turn.target.vitals → turn'.Repeats turn) ∧
      (∀ r ∈ rounds {} (Program.duel.lasting 3),
        r.came.events = (turnsOf {} (scriptsOf .duel) r).flatMap PlayedTurn.events ∧
          ∀ turn ∈ turnsOf {} (scriptsOf .duel) r, turn.StartsAfresh {} (scriptsOf .duel)) ∧
      ∀ earlier r later, rounds {} (Program.duel.lasting 3) = earlier ++ r :: later →
        r.came.knockout = false → r.came.pair.vitals = r.start.vitals →
          (∀ r' ∈ later, r'.Repeats r) ∧ finished.result.knockout = false ∧
            finished.result.roundsPlayed = (3 : Quantity).toNat :=
  ⟨rfl, rfl, nothing_else_carries_over rfl rfl⟩

end Lucha.Combat
