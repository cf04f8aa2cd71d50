import Lucha.Proofs.Combat.Account
import Lucha.Proofs.Combat.Log

/-!
# The course of a fight

A fight is a list of turns. Its rounds make a schedule of turns that may come, and `Bout.play` takes
them one by one: a fighter without a script takes none, and after a knockout none follows. Each turn
starts from what the log says about all turns before it, so what is played depends on nothing but
the standing at the start. `playRounds_eq` says that the rounds of a fight are played so.
-/

namespace Lucha.Combat

/-- One of the two contenders: the one who starts the rounds, or the other. -/
inductive Side where
  | starter | other
deriving DecidableEq

/-- The contender that a side fights against. -/
def Side.opposite : Side → Side
  | starter => other
  | other => starter

theorem Side.opposite_opposite (side : Side) : side.opposite.opposite = side := by
  cases side <;> rfl

/-- There are no other sides than one and its opposite. -/
theorem Side.eq_or_eq_opposite (side side' : Side) : side = side' ∨ side = side'.opposite := by
  cases side <;> cases side' <;> decide

/-- A turn that may come: its round and whose turn it is. -/
structure Slot where
  round : Nat
  side : Side
deriving DecidableEq

/-- The turns of some rounds after a round. -/
def schedule (round : Nat) : Nat → List Slot
  | 0 => []
  | left + 1 => ⟨round + 1, .starter⟩ :: ⟨round + 1, .other⟩ :: schedule (round + 1) left

/-- A turn that was taken. -/
structure TakenTurn where
  round : Nat
  actor : String
  deeds : List Deed
deriving DecidableEq

/-- The round of a turn and whose turn it is. -/
def TakenTurn.place (turn : TakenTurn) : Nat × String :=
  (turn.round, turn.actor)

namespace TakenTurn

/-- The events of a turn. -/
def events (turn : TakenTurn) : List Event :=
  turn.deeds.map (.deed turn.actor)

/-- What the log says about a turn. -/
def entries (turn : TakenTurn) : List Entry :=
  turn.events.map (⟨turn.round, ·⟩)

/-- What the log says about some turns is their events, each in its round. -/
theorem map_event_entries (turns : List TakenTurn) :
    (turns.flatMap entries).map Entry.event = turns.flatMap events := by
  simp [List.map_flatMap, entries, Function.comp_def]

/-- An event of some turns is a deed of one of them, and before it come the events of the turns
before that one and its deeds so far. -/
theorem exists_of_flatMap_events {turns : List TakenTurn} {earlier later : List Event}
    {event : Event} (h : turns.flatMap events = earlier ++ event :: later) :
    ∃ before turn after done deed todo, turns = before ++ turn :: after ∧
      turn.deeds = done ++ deed :: todo ∧ event = .deed turn.actor deed ∧
        earlier = before.flatMap events ++ done.map (.deed turn.actor) := by
  induction turns generalizing earlier with
  | nil => simp at h
  | cons first turns ih =>
    rw [List.flatMap_cons, List.append_eq_append_iff] at h
    obtain ⟨earlier, rfl, hrest⟩ | ⟨front, hfirst, hrest⟩ := h
    · obtain ⟨before, turn, after, done, deed, todo, rfl, hdeeds, hevent, rfl⟩ := ih hrest
      exact ⟨first :: before, turn, after, done, deed, todo, rfl, hdeeds, hevent, by simp⟩
    · obtain _ | ⟨_, front⟩ := front
      · -- the event is the first one of a later turn
        have hrest : turns.flatMap events = [] ++ event :: later := hrest.symm
        obtain ⟨before, turn, after, done, deed, todo, rfl, hdeeds, hevent, hnil⟩ := ih hrest
        refine ⟨first :: before, turn, after, done, deed, todo, rfl, hdeeds, hevent, ?_⟩
        rw [List.flatMap_cons, List.append_assoc, ← hnil, hfirst, List.append_nil, List.append_nil]
      · obtain ⟨rfl, -⟩ := List.cons.inj hrest
        obtain ⟨done, rest, hdeeds, rfl, hmap⟩ := List.map_eq_append_iff.mp hfirst
        obtain ⟨deed, todo, rfl, rfl, -⟩ := List.map_eq_cons_iff.mp hmap
        exact ⟨[], first, turns, done, deed, todo, rfl, hdeeds, rfl, rfl⟩

end TakenTurn

/-- What is played of a schedule. -/
structure Played where
  turns : List TakenTurn
  /-- The round that ends with a knockout. -/
  knockout? : Option Nat

/-- The deed that stands for the start of a turn, if starts are recorded. -/
def startDeeds (rules : Rules) (round : Nat) : List Deed :=
  if rules.recordTurnStarts then [.startTurn round] else []

/-- The start of a turn is no news about the contenders. -/
theorem Standing.afterDeeds_startDeeds (rules : Rules) (round : Nat) (s : Standing)
    (actor : String) : s.afterDeeds actor (startDeeds rules round) = s := by
  rw [startDeeds]
  split <;> rfl

/-- The rules of a fight, and the fighters and the scripts of both sides. -/
structure Bout where
  rules : Rules
  fighter : Side → Fighter
  script : Side → Option Block

namespace Bout

/-- The scripts of both sides. -/
def scripts (b : Bout) : Scripts :=
  ⟨b.script .starter, b.script .other⟩

/-- Both contenders as a standing says. -/
def pair (b : Bout) (s : Standing) : Pair :=
  ⟨s.contender (b.fighter .starter), s.contender (b.fighter .other)⟩

/-- Whether a contender has no hit points left. -/
def isKnockout (b : Bout) (s : Standing) : Bool :=
  (s.contender (b.fighter .starter)).isKnockedOut || (s.contender (b.fighter .other)).isKnockedOut

/-- The turn of a contender against the other. -/
def turnEnd (b : Bout) (slot : Slot) (s : Standing) : TurnEnd :=
  takeTurn b.rules slot.round (b.script slot.side) (s.contender (b.fighter slot.side))
    (s.contender (b.fighter slot.side.opposite))

/-- The turn that comes at its place in the schedule, if the fighter has a script. -/
def turn? (b : Bout) (slot : Slot) (s : Standing) : Option TakenTurn :=
  (b.script slot.side).map fun _ =>
    ⟨slot.round, (b.fighter slot.side).name, (b.turnEnd slot s).deeds⟩

/-- The turns that are taken of those that may come. -/
def play (b : Bout) : List Slot → Standing → Played
  | [], _ => ⟨[], none⟩
  | slot :: slots, s =>
    match b.turn? slot s with
    | none => b.play slots s
    | some turn =>
      let s := s.replay turn.events
      if b.isKnockout s then ⟨[turn], some slot.round⟩
      else
        let rest := b.play slots s
        ⟨turn :: rest.turns, rest.knockout?⟩

/-- Both fighters can be told apart by name. -/
def Distinct (b : Bout) : Prop :=
  (b.fighter .starter).name ≠ (b.fighter .other).name

/-- Both fighters can be told apart by name, and what they declare stands under its own name. -/
structure Fair (b : Bout) : Prop where
  distinct : b.Distinct
  keyed : ∀ side, (b.fighter side).Keyed

variable {b : Bout} {s : Standing}

/-- The names of both fighters differ, whichever side one looks from. -/
theorem Distinct.ne (h : b.Distinct) (side : Side) :
    (b.fighter side).name ≠ (b.fighter side.opposite).name := by
  cases side with
  | starter => exact h
  | other => exact h.symm

/-- The knockout does not depend on whose turn it is. -/
theorem isKnockout_eq (b : Bout) (s : Standing) (side : Side) :
    b.isKnockout s = ((s.contender (b.fighter side)).isKnockedOut
      || (s.contender (b.fighter side.opposite)).isKnockedOut) := by
  cases side with
  | starter => rfl
  | other => exact Bool.or_comm _ _

/-- The turn under way when a contender begins to follow its script. -/
def turnStart (b : Bout) (slot : Slot) (s : Standing) : Turn :=
  ⟨s.contender (b.fighter slot.side), s.contender (b.fighter slot.side.opposite),
    b.rules.maxCombosPerTurn.toNat, false⟩

/-- At the start of a turn both contenders are as the standing says. -/
theorem tracks_turnStart (b : Bout) (slot : Slot) (s : Standing) :
    s.Tracks (b.fighter slot.side) (b.fighter slot.side.opposite) (b.turnStart slot s) :=
  ⟨rfl, rfl⟩

/-- The deeds of a turn are its start and what comes of the script. -/
theorem turnEnd_of_script {slot : Slot} {block : Block} (hscript : b.script slot.side = some block)
    (s : Standing) :
    b.turnEnd slot s =
      let (deeds, t) := Move.follow b.rules.comboDepth.toNat block (b.turnStart slot s)
      ⟨startDeeds b.rules slot.round ++ deeds, t.actor, t.target,
        t.actor.isKnockedOut || t.target.isKnockedOut⟩ := by
  rw [turnEnd, hscript]
  rfl

/-- A contender without a script does nothing. -/
theorem turnEnd_of_none {slot : Slot} (hscript : b.script slot.side = none) (s : Standing) :
    b.turnEnd slot s
      = ⟨[], s.contender (b.fighter slot.side), s.contender (b.fighter slot.side.opposite),
        false⟩ := by
  rw [turnEnd, hscript]
  rfl

/-- A turn leads to what its deeds say. -/
theorem turnEnd_told (h : b.Distinct) (slot : Slot) (s : Standing) :
    let e := b.turnEnd slot s
    let s' := s.afterDeeds (b.fighter slot.side).name e.deeds
    e = ⟨e.deeds, s'.contender (b.fighter slot.side), s'.contender (b.fighter slot.side.opposite),
      (b.script slot.side).isSome && b.isKnockout s'⟩ := by
  intro e s'
  cases hscript : b.script slot.side with
  | none =>
    have he := turnEnd_of_none hscript s
    simp only [s', e, he]
    rfl
  | some block =>
    have he := turnEnd_of_script hscript s
    obtain ⟨hactor, htarget⟩ := Move.told_follow (h.ne slot.side) b.rules.comboDepth.toNat block
      (b.tracks_turnStart slot s)
    have hs : s' = s.afterDeeds (b.fighter slot.side).name
        (Move.follow b.rules.comboDepth.toNat block (b.turnStart slot s)).1 := by
      simp only [s', e, he, Standing.afterDeeds_append,
        Standing.afterDeeds_startDeeds]
    rw [isKnockout_eq b s' slot.side, hs, ← hactor, ← htarget]
    simp only [e, he]
    rfl

/-- The deeds of a turn are justified. -/
theorem accounts_turnEnd (h : b.Fair) (slot : Slot) (s : Standing) :
    Accounts (b.fighter slot.side) (b.fighter slot.side.opposite).name s
      (b.turnEnd slot s).deeds := by
  cases hscript : b.script slot.side with
  | none =>
    rw [turnEnd_of_none hscript]
    trivial
  | some block =>
    have haccounts := (Move.faithful_follow (h.distinct.ne slot.side) (h.keyed slot.side)
      b.rules.comboDepth.toNat block (b.tracks_turnStart slot s)).1
    have hstart : Accounts (b.fighter slot.side) (b.fighter slot.side.opposite).name s
        (startDeeds b.rules slot.round) := by
      rw [startDeeds]
      split
      · exact ⟨trivial, trivial⟩
      · trivial
    rw [turnEnd_of_script hscript]
    refine accounts_append.mpr ⟨hstart, ?_⟩
    rwa [Standing.afterDeeds_startDeeds]

/-- A turn has the round and the actor of its place. -/
theorem of_turn? {slot : Slot} {turn : TakenTurn} (h : b.turn? slot s = some turn) :
    turn.round = slot.round ∧ turn.actor = (b.fighter slot.side).name := by
  obtain ⟨block, -, rfl⟩ := Option.map_eq_some_iff.mp h
  exact ⟨rfl, rfl⟩

/-- The events of a turn are the deeds of the fighter whose turn it is. -/
private theorem map_deeds {slot : Slot} {turn : TakenTurn} (h : b.turn? slot s = some turn) :
    turn.deeds.map (.deed (b.fighter slot.side).name) = turn.events := by
  rw [TakenTurn.events, (of_turn? h).2]

/-- What comes of a turn, if one is taken, is what the log says about it. -/
theorem turnEnd_eq (h : b.Distinct) (slot : Slot) (s : Standing) :
    b.turnEnd slot s =
      match b.turn? slot s with
      | none =>
        ⟨[], s.contender (b.fighter slot.side), s.contender (b.fighter slot.side.opposite), false⟩
      | some turn =>
        let s' := s.replay turn.events
        ⟨turn.deeds, s'.contender (b.fighter slot.side),
          s'.contender (b.fighter slot.side.opposite), b.isKnockout s'⟩ := by
  have hspec := turnEnd_told h slot s
  rw [turn?]
  cases hscript : b.script slot.side with
  | none =>
    rw [turnEnd, hscript, takeTurn]
    rfl
  | some block =>
    rw [hspec, hscript]
    simp only [Option.map_some, TakenTurn.events, Standing.replay_deeds]
    rfl

/-- A round is a turn of the starter and, unless it is a knockout, one of the other contender. -/
theorem playRound_eq (h : b.Distinct) (round : Nat) (s : Standing) :
    playRound b.rules b.scripts round (b.pair s) =
      let first := (b.turn? ⟨round, .starter⟩ s).toList
      let s' := s.replay (first.flatMap TakenTurn.events)
      if first ≠ [] ∧ b.isKnockout s' then ⟨first.flatMap TakenTurn.events, b.pair s', true⟩
      else
        let second := (b.turn? ⟨round, .other⟩ s').toList
        let s'' := s'.replay (second.flatMap TakenTurn.events)
        ⟨first.flatMap TakenTurn.events ++ second.flatMap TakenTurn.events, b.pair s'',
          second ≠ [] ∧ b.isKnockout s''⟩ := by
  have hfirst := turnEnd_eq h ⟨round, .starter⟩ s
  have hsecond (s' : Standing) := turnEnd_eq h ⟨round, .other⟩ s'
  simp only [turnEnd, Side.opposite] at hfirst hsecond
  have hname (s' : Standing) (side : Side) :
      (s'.contender (b.fighter side)).name = (b.fighter side).name := rfl
  rw [playRound]
  simp only [pair, scripts, hfirst, hname]
  -- the second turn starts from where the first one leads, with the sides exchanged
  cases hturn : b.turn? ⟨round, .starter⟩ s with
  | none =>
    simp only [hsecond]
    cases hturn' : b.turn? ⟨round, .other⟩ s with
    | none => simp [hturn']
    | some turn' => simp [hturn', map_deeds hturn']
  | some turn =>
    simp only [hsecond]
    cases hturn' : b.turn? ⟨round, .other⟩ (s.replay turn.events) with
    | none => simp [hturn', map_deeds hturn]
    | some turn' => simp [hturn', map_deeds hturn, map_deeds hturn']

/-- What the log says about a turn stands in the round of its place. -/
private theorem entries_eq {slot : Slot} {turn : TakenTurn} (h : b.turn? slot s = some turn) :
    turn.entries = turn.events.map (⟨slot.round, ·⟩) := by
  rw [TakenTurn.entries, (of_turn? h).1]

/-- The rounds of a fight are played as the schedule says. -/
theorem playRounds_eq (h : b.Distinct) (left round : Nat) (s : Standing) (log : Log) :
    let played := b.play (schedule round left) s
    let e := playRounds b.rules b.scripts left round (b.pair s) log
    e.log.entries.toList = log.entries.toList ++ played.turns.flatMap TakenTurn.entries ∧
      e.pair = b.pair (s.replay (played.turns.flatMap TakenTurn.events)) ∧
      e.knockout = played.knockout?.isSome ∧ e.round = played.knockout?.getD (round + left) := by
  induction left generalizing round s log with
  | zero => simp [playRounds, schedule, play]
  | succ left ih =>
    have hround : round + 1 + left = round + (left + 1) := by omega
    simp only [playRounds, playRound_eq h, schedule, play]
    -- on either side the turn of the starter comes first and then that of the other contender, if
    -- there is one; each may be a knockout, and where none is the next rounds follow
    cases hturn : b.turn? ⟨round + 1, .starter⟩ s with
    | none =>
      cases hturn' : b.turn? ⟨round + 1, .other⟩ s with
      | none =>
        have hrest := ih (round + 1) s (log.extend (round + 1) [])
        simpa [hturn', hround, Log.toList_extend] using hrest
      | some turn' =>
        by_cases hko : b.isKnockout (s.replay turn'.events)
        · simp [hturn', hko, Log.toList_extend, entries_eq hturn']
        · have hrest := ih (round + 1) (s.replay turn'.events) (log.extend (round + 1) turn'.events)
          simpa [hturn', hko, hround, Log.toList_extend, entries_eq hturn',
            Standing.replay_append] using hrest
    | some turn =>
      by_cases hko : b.isKnockout (s.replay turn.events)
      · simp [hko, Log.toList_extend, entries_eq hturn]
      · cases hturn' : b.turn? ⟨round + 1, .other⟩ (s.replay turn.events) with
        | none =>
          have hrest := ih (round + 1) (s.replay turn.events) (log.extend (round + 1) turn.events)
          simpa [hturn', hko, hround, Log.toList_extend, entries_eq hturn,
            Standing.replay_append] using hrest
        | some turn' =>
          by_cases hko' : b.isKnockout ((s.replay turn.events).replay turn'.events)
          · simp [hturn', hko, hko', Log.toList_extend, entries_eq hturn, entries_eq hturn',
              Standing.replay_append]
          · have hrest := ih (round + 1) ((s.replay turn.events).replay turn'.events)
              (log.extend (round + 1) (turn.events ++ turn'.events))
            simpa [hturn', hko, hko', hround, Log.toList_extend, entries_eq hturn,
              entries_eq hturn', Standing.replay_append] using hrest

/-- The turns that may come, of the fighters that have a script. -/
def order (b : Bout) (slots : List Slot) : List (Nat × String) :=
  (slots.filter fun slot => (b.script slot.side).isSome).map fun slot =>
    (slot.round, (b.fighter slot.side).name)

/-- The turns are taken in order, all of them unless there is a knockout. -/
theorem place_play (b : Bout) (slots : List Slot) (s : Standing) :
    (b.play slots s).turns.map TakenTurn.place <+: b.order slots ∧
      ((b.play slots s).knockout? = none →
        (b.play slots s).turns.map TakenTurn.place = b.order slots) := by
  induction slots generalizing s with
  | nil => exact ⟨List.prefix_rfl, fun _ => rfl⟩
  | cons slot slots ih =>
    rw [play]
    cases hturn : b.turn? slot s with
    | none =>
      have hscript : b.script slot.side = none := Option.map_eq_none_iff.mp hturn
      have horder : b.order (slot :: slots) = b.order slots := by simp [order, hscript]
      rw [horder]
      exact ih s
    | some turn =>
      obtain ⟨script, hscript, -⟩ := Option.map_eq_some_iff.mp hturn
      obtain ⟨hround, hactor⟩ := of_turn? hturn
      have horder : b.order (slot :: slots) = turn.place :: b.order slots := by
        simp [order, hscript, TakenTurn.place, hround, hactor]
      rw [horder]
      dsimp only
      split
      · exact ⟨⟨b.order slots, rfl⟩, fun hnone => absurd hnone (Option.some_ne_none _)⟩
      · obtain ⟨hstart, hall⟩ := ih (s.replay turn.events)
        refine ⟨?_, fun hnone => ?_⟩
        · exact List.cons_prefix_cons.mpr ⟨rfl, hstart⟩
        · exact congrArg (turn.place :: ·) (hall hnone)

/-- The round that ends with a knockout is that of the last turn, if this turn leaves a contender
without hit points. -/
theorem knockout?_play (b : Bout) (slots : List Slot) (s : Standing) :
    (b.play slots s).knockout? =
      ((b.play slots s).turns.getLast?.filter fun _ =>
        b.isKnockout (s.replay ((b.play slots s).turns.flatMap TakenTurn.events))).map
          TakenTurn.round := by
  induction slots generalizing s with
  | nil => rfl
  | cons slot slots ih =>
    rw [play]
    cases hturn : b.turn? slot s with
    | none => exact ih s
    | some turn =>
      by_cases hko : b.isKnockout (s.replay turn.events)
      · simp [hko, Option.filter_some, (of_turn? hturn).1]
      · have hrest := ih (s.replay turn.events)
        simp only [hko, Bool.false_eq_true, if_false]
        -- the last turn is that of the rest, unless nothing is played any more
        cases hturns : (b.play slots (s.replay turn.events)).turns with
        | nil => simpa [hturns, hko] using hrest
        | cons next turns => simpa [hturns, Standing.replay_append] using hrest

/-- A knockout ends the round of the last turn and leaves a contender without hit points. -/
theorem exists_last_of_knockout {slots : List Slot} {round : Nat}
    (h : (b.play slots s).knockout? = some round) :
    ∃ last, (b.play slots s).turns.getLast? = some last ∧ last.round = round ∧
      b.isKnockout (s.replay ((b.play slots s).turns.flatMap TakenTurn.events)) = true := by
  rw [knockout?_play, Option.map_eq_some_iff] at h
  obtain ⟨last, hfilter, hround⟩ := h
  obtain ⟨hlast, hdown⟩ := Option.filter_eq_some_iff.mp hfilter
  exact ⟨last, hlast, hround, hdown⟩

/-- Where no knockout ends the turns that are taken, they leave no contender without hit points. -/
theorem isKnockout_of_lasted {slots : List Slot} (h : (b.play slots s).knockout? = none)
    (hne : (b.play slots s).turns ≠ []) :
    b.isKnockout (s.replay ((b.play slots s).turns.flatMap TakenTurn.events)) = false := by
  obtain ⟨last, hlast⟩ := Option.ne_none_iff_exists'.mp (mt List.getLast?_eq_none_iff.mp hne)
  rw [knockout?_play, hlast, Option.filter_some, Option.map_eq_none_iff] at h
  split at h
  · cases h
  · rename_i hdown
    exact Bool.eq_false_iff.mpr hdown

/-- Between two turns no contender is without hit points. -/
theorem isKnockout_between {slots : List Slot} {earlier later : List TakenTurn}
    (h : (b.play slots s).turns = earlier ++ later) (hearlier : earlier ≠ [])
    (hlater : later ≠ []) : b.isKnockout (s.replay (earlier.flatMap TakenTurn.events)) = false := by
  induction slots generalizing s earlier with
  | nil =>
    have hnil : earlier ++ later = [] := h.symm
    exact absurd (List.append_eq_nil_iff.mp hnil).1 hearlier
  | cons slot slots ih =>
    rw [play] at h
    cases hturn : b.turn? slot s with
    | none =>
      rw [hturn] at h
      exact ih h hearlier
    | some turn =>
      obtain ⟨first, earlier, rfl⟩ := List.exists_cons_of_ne_nil hearlier
      simp only [hturn, List.cons_append] at h
      split at h
      · -- the first turn is the last one, so nothing comes later
        have hnil : earlier ++ later = [] := (List.cons.inj h).2.symm
        exact absurd (List.append_eq_nil_iff.mp hnil).2 hlater
      · rename_i hko
        obtain ⟨rfl, hrest⟩ := List.cons.inj h
        rw [List.flatMap_cons, Standing.replay_append]
        by_cases hempty : earlier = []
        · rw [hempty]
          exact Bool.eq_false_iff.mpr hko
        · exact ih hrest hempty

/-- A turn that was taken has its place in the schedule, and the log before it says how the
contenders stand when it starts. -/
theorem exists_turn?_of_play {slots : List Slot} {earlier later : List TakenTurn} {turn : TakenTurn}
    (h : (b.play slots s).turns = earlier ++ turn :: later) :
    ∃ slot ∈ slots, b.turn? slot (s.replay (earlier.flatMap TakenTurn.events)) = some turn := by
  induction slots generalizing s earlier with
  | nil => simp [play] at h
  | cons slot slots ih =>
    rw [play] at h
    cases hturn : b.turn? slot s with
    | none =>
      rw [hturn] at h
      obtain ⟨slot', hmem, hslot'⟩ := ih h
      exact ⟨slot', List.mem_cons_of_mem _ hmem, hslot'⟩
    | some first =>
      have hsplit : ∃ rest, (rest = [] ∨ rest = (b.play slots (s.replay first.events)).turns) ∧
          first :: rest = earlier ++ turn :: later := by
        simp only [hturn] at h
        split at h
        · exact ⟨[], .inl rfl, h⟩
        · exact ⟨_, .inr rfl, h⟩
      obtain ⟨rest, hrest, hsplit⟩ := hsplit
      obtain _ | ⟨_, earlier⟩ := earlier
      · obtain ⟨rfl, -⟩ := List.cons.inj hsplit
        exact ⟨slot, List.mem_cons_self, hturn⟩
      · obtain ⟨rfl, htail⟩ := List.cons.inj hsplit
        obtain rfl | rfl := hrest
        · simp at htail
        · obtain ⟨slot', hmem, hslot'⟩ := ih htail
          refine ⟨slot', List.mem_cons_of_mem _ hmem, ?_⟩
          rwa [List.flatMap_cons, Standing.replay_append]

end Bout

end Lucha.Combat
