import Lucha.Proofs.Combat.Fight

/-!
# Rounds in succession

A fight is a list of rounds, one after the other up to the first knockout (`roundsAfter`). Each of
them starts where the one before it stopped (`isChain_roundsAfter`), and with fewer rounds to fight
the same ones come as far as they go (`exists_roundsAfter_append`). What a fight is in these terms
is said by `playedOut_of_run`: its log holds the events of the rounds and then the end.
-/

namespace Lucha

/-- The program with another number of rounds to fight. -/
def Program.lasting (p : Program) (turns : Quantity) : Program :=
  { p with matchup := { p.matchup with maxTurns := turns } }

namespace Combat

/-- A round of a fight. -/
structure PlayedRound where
  number : Nat
  /-- Both contenders when it starts. -/
  start : Pair
  came : RoundEnd

/-- What the log says about a round. -/
def PlayedRound.entries (r : PlayedRound) : List Entry :=
  r.came.events.map (⟨r.number, ·⟩)

/-- The rounds that are played after a round, up to a number of them. -/
def roundsAfter (rules : Rules) (scripts : Scripts) : Nat → Nat → Pair → List PlayedRound
  | 0, _, _ => []
  | left + 1, round, pair =>
    let came := playRound rules scripts (round + 1) pair
    ⟨round + 1, pair, came⟩ ::
      if came.knockout then [] else roundsAfter rules scripts left (round + 1) came.pair

/-- Where rounds lead that are fought after a round and recorded at the end of a log. -/
def endingOf (round : Nat) (pair : Pair) (log : Log) (rounds : List PlayedRound) : Ending where
  log := rounds.foldl (fun log r => log.extend r.number r.came.events) log
  pair := rounds.getLast?.elim pair (·.came.pair)
  round := round + rounds.length
  knockout := rounds.getLast?.elim false (·.came.knockout)

section roundsAfter

variable {rules : Rules} {scripts : Scripts}

/-- The rounds after a round have higher numbers, up to that of the last round. -/
theorem number_of_mem_roundsAfter {left round : Nat} {pair : Pair} {r : PlayedRound}
    (h : r ∈ roundsAfter rules scripts left round pair) :
    round < r.number ∧ r.number ≤ round + left := by
  induction left generalizing round pair with
  | zero => cases h
  | succ left ih =>
    obtain _ | ⟨_, hlater⟩ := h
    · exact ⟨Nat.lt_succ_self round, by dsimp only; omega⟩
    · split at hlater
      · cases hlater
      · have := ih hlater
        omega

/-- With fewer rounds to fight the same ones come as far as they go, and the others are later. -/
theorem exists_roundsAfter_append (rules : Rules) (scripts : Scripts) {fewer left : Nat}
    (h : fewer ≤ left) (round : Nat) (pair : Pair) :
    ∃ later, roundsAfter rules scripts left round pair
        = roundsAfter rules scripts fewer round pair ++ later ∧
      ∀ r ∈ later, round + fewer < r.number := by
  induction fewer generalizing left round pair with
  | zero => exact ⟨_, rfl, fun r hr => (number_of_mem_roundsAfter hr).1⟩
  | succ fewer ih =>
    obtain ⟨left, rfl⟩ : ∃ more, left = more + 1 := ⟨left - 1, by omega⟩
    rw [roundsAfter, roundsAfter]
    split
    · exact ⟨[], rfl, fun r hr => nomatch hr⟩
    · obtain ⟨later, heq, hlater⟩ := ih (show fewer ≤ left by omega) (round + 1)
        (playRound rules scripts (round + 1) pair).pair
      exact ⟨later, by rw [heq, List.cons_append], fun r hr => by have := hlater r hr; omega⟩

/-- More rounds to fight make no difference after a knockout. -/
theorem roundsAfter_eq_of_knockout {fewer left : Nat} (h : fewer ≤ left) {round : Nat}
    {pair : Pair} {last : PlayedRound} (hlast : last ∈ roundsAfter rules scripts fewer round pair)
    (hknockout : last.came.knockout = true) :
    roundsAfter rules scripts left round pair = roundsAfter rules scripts fewer round pair := by
  induction fewer generalizing left round pair with
  | zero => cases hlast
  | succ fewer ih =>
    obtain ⟨left, rfl⟩ : ∃ more, left = more + 1 := ⟨left - 1, by omega⟩
    rw [roundsAfter, roundsAfter]
    congr 1
    obtain rfl | hlater := List.mem_cons.mp hlast
    · rw [if_pos hknockout, if_pos hknockout]
    · split at hlater
      · cases hlater
      · rename_i hgoes
        rw [if_neg hgoes, if_neg hgoes]
        exact ih (by omega) hlater

/-- Each round is played from where it starts. -/
theorem came_of_mem_roundsAfter {left round : Nat} {pair : Pair} {r : PlayedRound}
    (h : r ∈ roundsAfter rules scripts left round pair) :
    r.came = playRound rules scripts r.number r.start := by
  induction left generalizing round pair with
  | zero => cases h
  | succ left ih =>
    obtain _ | ⟨_, hlater⟩ := h
    · rfl
    · split at hlater
      · cases hlater
      · exact ih hlater

/-- The rounds that are fought are numbered one after the other. -/
theorem map_number_roundsAfter (left round : Nat) (pair : Pair) :
    (roundsAfter rules scripts left round pair).map PlayedRound.number
      = List.range' (round + 1) (roundsAfter rules scripts left round pair).length := by
  induction left generalizing round pair with
  | zero => rfl
  | succ left ih =>
    rw [roundsAfter, List.map_cons, List.length_cons, List.range'_succ]
    congr 1
    split
    · rfl
    · exact ih _ _

/-- Where a round follows, the one before it was no knockout and left both contenders as the next
one finds them. -/
theorem isChain_roundsAfter (left round : Nat) (pair : Pair) :
    (roundsAfter rules scripts left round pair).IsChain fun r next =>
      r.came.knockout = false ∧ next.start = r.came.pair := by
  induction left generalizing round pair with
  | zero => exact .nil
  | succ left ih =>
    rw [roundsAfter]
    split
    · exact .singleton _
    · rename_i hgoes
      cases left with
      | zero => exact .singleton _
      | succ left => exact .cons_cons ⟨Bool.eq_false_iff.mpr hgoes, rfl⟩ (ih _ _)

/-- Without a knockout all rounds are fought. -/
theorem length_roundsAfter {left round : Nat} {pair : Pair}
    (h : ∀ r ∈ roundsAfter rules scripts left round pair, r.came.knockout = false) :
    (roundsAfter rules scripts left round pair).length = left := by
  induction left generalizing round pair with
  | zero => rfl
  | succ left ih =>
    rw [roundsAfter] at h ⊢
    obtain ⟨hfirst, hlater⟩ := List.forall_mem_cons.mp h
    rw [hfirst] at hlater ⊢
    exact congrArg (· + 1) (ih hlater)

/-- Rounds are recorded one after the other, and where they stop is where the last one stops. -/
theorem playRounds_eq_endingOf (left round : Nat) (pair : Pair) (log : Log) :
    playRounds rules scripts left round pair log
      = endingOf round pair log (roundsAfter rules scripts left round pair) := by
  induction left generalizing round pair log with
  | zero => rfl
  | succ left ih =>
    rw [playRounds, roundsAfter]
    split
    · rename_i hknockout
      simp [endingOf, hknockout]
    · rename_i hgoes
      rw [ih, endingOf, endingOf, List.getLast?_cons, List.length_cons, List.foldl_cons]
      have hround (later : Nat) : round + 1 + later = round + (later + 1) := by omega
      cases (roundsAfter rules scripts left (round + 1) _).getLast? with
      | none => simp [hround, hgoes]
      | some last => simp [hround]

end roundsAfter

/-- A log where rounds are fought grows by the records of each round in turn. -/
theorem toList_endingOf (round : Nat) (pair : Pair) (log : Log) (rounds : List PlayedRound) :
    (endingOf round pair log rounds).log.entries.toList
      = log.entries.toList ++ rounds.flatMap PlayedRound.entries := by
  rw [endingOf]
  induction rounds generalizing log with
  | nil => simp
  | cons r rounds ih =>
    rw [List.foldl_cons, ih, Log.toList_extend, List.flatMap_cons, List.append_assoc,
      PlayedRound.entries]

/-! ### Programs -/

/-- The scripts of both combatants. -/
def scriptsOf (p : Program) : Scripts :=
  ⟨(p.scriptFor? p.matchup.starter).map Script.body,
    (p.scriptFor? p.matchup.second).map Script.body⟩

/-- The rounds of the fight of a program; none, if its combatants are not declared. -/
def rounds (rules : Rules) (p : Program) : List PlayedRound :=
  match p.fighters.find? p.matchup.starter, p.fighters.find? p.matchup.second with
  | some starter, some other =>
    roundsAfter rules (scriptsOf p) p.matchup.maxTurns.toNat 0 ⟨.fresh starter, .fresh other⟩
  | _, _ => []

/-- The contenders are the same, whatever the number of rounds. -/
theorem Bout.Stages.lasting {b : Bout} {rules : Rules} {p : Program} (h : b.Stages rules p)
    (turns : Quantity) :
    b.Stages rules (p.lasting turns) :=
  ⟨h.rules, h.fighter, h.script⟩

/-- The rounds of the bout of a program start with its contenders as they are declared. -/
theorem rounds_eq_of_stages {b : Bout} {rules : Rules} {p : Program} (h : b.Stages rules p) :
    rounds rules p = roundsAfter rules (scriptsOf p) p.matchup.maxTurns.toNat 0
      ⟨.fresh (b.fighter .starter), .fresh (b.fighter .other)⟩ := by
  have hstarter : p.fighters.find? p.matchup.starter = some (b.fighter .starter) :=
    h.fighter .starter
  have hother : p.fighters.find? p.matchup.second = some (b.fighter .other) := h.fighter .other
  rw [rounds, hstarter, hother]

/-- A fight was played out round by round. -/
structure PlayedOut (rules : Rules) (p : Program) (finished : Finished) : Prop where
  log : finished.log.entries.toList = (rounds rules p).flatMap PlayedRound.entries
    ++ [⟨finished.result.roundsPlayed, .combatEnd finished.result.fighterA finished.result.fighterB
      finished.result.outcome⟩]
  opening : ∃ starter other, p.fighters.find? p.matchup.starter = some starter ∧
    p.fighters.find? p.matchup.second = some other ∧
      (rounds rules p).head?.map PlayedRound.start = some ⟨.fresh starter, .fresh other⟩
  came : ∀ r ∈ rounds rules p, r.came = playRound rules (scriptsOf p) r.number r.start
  chain : (rounds rules p).IsChain fun r next =>
    r.came.knockout = false ∧ next.start = r.came.pair
  numbers : (rounds rules p).map PlayedRound.number = List.range' 1 finished.result.roundsPlayed
  ending : (rounds rules p).getLast?.map (·.came.knockout) = some finished.result.knockout
  lasted : finished.result.knockout = false →
    finished.result.roundsPlayed = p.matchup.maxTurns.toNat

/-- The fight of a program is its rounds and then the end. -/
theorem fight_eq_of_stages {b : Bout} {rules : Rules} {p : Program} (h : b.Stages rules p) :
    fight rules p (b.fighter .starter) (b.fighter .other)
      = (endingOf 0 ⟨.fresh (b.fighter .starter), .fresh (b.fighter .other)⟩ .empty
        (rounds rules p)).finish p.matchup.fighterA := by
  rw [fight, playRounds_eq_endingOf, rounds_eq_of_stages h]
  rfl

/-- Rounds up to a first knockout have none, if the last one has none. -/
theorem forall_knockout_eq_false {rounds : List PlayedRound}
    (hchain : rounds.IsChain fun r next => r.came.knockout = false ∧ next.start = r.came.pair)
    (hlast : ∀ last, rounds.getLast? = some last → last.came.knockout = false) :
    ∀ r ∈ rounds, r.came.knockout = false := by
  induction rounds with
  | nil => exact fun r hr => nomatch hr
  | cons r rounds ih =>
    cases rounds with
    | nil => simpa using hlast r rfl
    | cons next rounds =>
      rw [List.isChain_cons_cons] at hchain
      rw [List.getLast?_cons_cons] at hlast
      exact List.forall_mem_cons.mpr ⟨hchain.1.1, ih hchain.2 hlast⟩

/-- A fight is played out round by round. -/
theorem playedOut_of_run {rules : Rules} {p : Program} {finished : Finished}
    (h : run rules p = .ok finished) : PlayedOut rules p finished := by
  obtain ⟨hsound, b, hstages, rfl⟩ := run_eq_ok_iff.mp h
  have hrounds := rounds_eq_of_stages hstages
  obtain ⟨left, hleft⟩ : ∃ left, p.matchup.maxTurns.toNat = left + 1 :=
    ⟨p.matchup.maxTurns.toNat - 1, by have := UInt32.lt_iff_toNat_lt.mp hsound.maxTurns; omega⟩
  have hchain := hrounds ▸ isChain_roundsAfter p.matchup.maxTurns.toNat 0 _
  obtain ⟨last, hlast⟩ : ∃ last, (rounds rules p).getLast? = some last := by
    rw [hrounds, hleft, roundsAfter, List.getLast?_cons]
    exact ⟨_, rfl⟩
  rw [fight_eq_of_stages hstages]
  refine ⟨?_, ⟨_, _, hstages.fighter .starter, hstages.fighter .other, ?_⟩, ?_, hchain, ?_, ?_, ?_⟩
  · rw [Ending.finish, Log.push, Array.toList_push, toList_endingOf]
    rfl
  · rw [hrounds, hleft, roundsAfter]
    rfl
  · rw [hrounds]
    exact fun r hr => came_of_mem_roundsAfter hr
  · simp only [Ending.finish, endingOf, Nat.zero_add]
    rw [hrounds, map_number_roundsAfter]
  · simp only [Ending.finish, endingOf, hlast]
    rfl
  · simp only [Ending.finish, endingOf, hlast, Nat.zero_add]
    intro hgoes
    have hall : ∀ r ∈ rounds rules p, r.came.knockout = false :=
      forall_knockout_eq_false hchain fun last' hlast' =>
        Option.some.inj (hlast.symm.trans hlast') ▸ hgoes
    rw [hrounds] at hall ⊢
    exact length_roundsAfter hall

end Combat

end Lucha
