import Lucha.Proofs.Combat.Fight
import Lucha.Proofs.Program.Printable
import Mathlib.Data.List.TakeWhile

/-!
# Wider limits

The limits of the rules show in a fight only where a combo is abandoned for one of them. Two fights
of a program under rules of which the first allow no more than the second agree before the first
such event of the first fight, and altogether if it has none (`limits_transparent`). Moves, turns,
rounds and fights are compared by one relation on what they give (`AgreeUntil`), which is kept by
doing one thing after the other (`AgreeUntil.append`).
-/

namespace Lucha.Combat

/-! ### Lists that agree up to an item -/

section AgreeUntil

variable {α β : Type} {stop : α → Bool} {as as' bs bs' : List α} {same same' : Prop}

/-- Two lists agree before the first item of the first list that stops it; if none does, they are
the same, and what is said to be the same as well is. -/
structure AgreeUntil (stop : α → Bool) (as bs : List α) (same : Prop) : Prop where
  before : as.takeWhile (!stop ·) <+: bs
  whole : (∀ a ∈ as, stop a = false) → as = bs ∧ same

namespace AgreeUntil

/-- A list agrees with itself. -/
theorem refl (stop : α → Bool) (as : List α) (h : same) : AgreeUntil stop as as same :=
  ⟨List.takeWhile_prefix _, fun _ => ⟨rfl, h⟩⟩

/-- A list that stops at once agrees with every other. -/
theorem stopped {a : α} (h : stop a = true) (as bs : List α) :
    AgreeUntil stop (a :: as) bs same where
  before := by
    rw [List.takeWhile_cons, h]
    exact List.nil_prefix
  whole hfree := absurd (hfree a List.mem_cons_self) (by simp [h])

theorem mono (h : AgreeUntil stop as bs same) (himp : same → same') :
    AgreeUntil stop as bs same' :=
  ⟨h.before, fun hfree => (h.whole hfree).imp_right himp⟩

/-- What follows must agree only where nothing stopped before. -/
theorem append (h : AgreeUntil stop as bs same) (h' : same → AgreeUntil stop as' bs' same') :
    AgreeUntil stop (as ++ as') (bs ++ bs') same' := by
  by_cases hfree : ∀ a ∈ as, stop a = false
  · obtain ⟨rfl, hsame⟩ := h.whole hfree
    obtain ⟨hbefore, hwhole⟩ := h' hsame
    refine ⟨?_, fun hall => ?_⟩
    · rw [List.takeWhile_append_of_pos (by simpa using hfree)]
      exact (List.prefix_append_right_inj as).mpr hbefore
    · obtain ⟨rfl, hsame'⟩ := hwhole fun a ha => hall a (List.mem_append_right _ ha)
      exact ⟨rfl, hsame'⟩
  · refine ⟨?_, fun hall => absurd (fun a ha => hall a (List.mem_append_left _ ha)) hfree⟩
    have hshort : (as.takeWhile (!stop ·)).length ≠ as.length := by
      intro hlength
      have hall := (List.takeWhile_prefix (p := (!stop ·)) (l := as)).eq_of_length hlength
      rw [List.takeWhile_eq_self_iff] at hall
      exact hfree (by simpa using hall)
    rw [List.takeWhile_append, if_neg hshort]
    exact h.before.trans (List.prefix_append _ _)

/-- Where something stopped, anything may follow. -/
theorem of_prefix (h : AgreeUntil stop as bs same) (hdiffer : ¬ same) (has : as <+: as')
    (hbs : bs <+: bs') : AgreeUntil stop as' bs' same' := by
  obtain ⟨more, rfl⟩ := has
  obtain ⟨more', rfl⟩ := hbs
  exact h.append fun hsame => absurd hsame hdiffer

/-- Agreement is kept by maps that keep what stops. -/
theorem map {g : β → Bool} {f : α → β} (h : AgreeUntil stop as bs same)
    (hf : ∀ a, g (f a) = stop a) : AgreeUntil g (as.map f) (bs.map f) same where
  before := by
    have hstop : (fun b => !g b) ∘ f = fun a => !stop a := funext fun a => by simp [hf]
    rw [List.takeWhile_map, hstop]
    exact h.before.map f
  whole hfree := by
    obtain ⟨rfl, hsame⟩ := h.whole fun a ha => hf a ▸ hfree (f a) (List.mem_map_of_mem ha)
    exact ⟨rfl, hsame⟩

end AgreeUntil

end AgreeUntil

/-! ### Moves -/

/-- A combo is abandoned because the rules allow no more nesting, or no more combos. -/
def Deed.isCutOff : Deed → Bool
  | .abortCombo _ .depthLimit => true
  | .abortCombo _ .budget => true
  | _ => false

/-- Turns that are the same but for the budget, of which the first has no more. -/
structure Turn.Within (t t' : Turn) : Prop where
  actor : t.actor = t'.actor
  target : t.target = t'.target
  exhausted : t.exhausted = t'.exhausted
  combosLeft : t.combosLeft ≤ t'.combosLeft

namespace Move

/-- The deeds of two moves agree until the first is cut off, from turns of which the first has no
more budget; and so are the turns after them, if it is not cut off. -/
def Within (m m' : Move) : Prop :=
  ∀ ⦃t t' : Turn⦄, t.Within t' →
    AgreeUntil Deed.isCutOff (m t).1 (m' t').1 ((m t).2.Within (m' t').2)

variable {m m' n n' : Move}

/-- To do nothing takes no budget. -/
theorem within_rest : rest.Within rest := fun _ _ h => .refl _ [] h

/-- A single deed is not cut off by a smaller budget. -/
theorem within_only (deed : Deed) : (only deed).Within (only deed) := fun _ _ h => .refl _ [deed] h

/-- A move that is cut off at once agrees with every other. -/
theorem within_of_isCutOff {deed : Deed} (h : deed.isCutOff = true) (m' : Move) :
    (only deed).Within m' :=
  fun _ _ _ => .stopped h [] _

/-- Moves one after the other agree until the first cut-off if each two do. -/
theorem Within.andThen (h : m.Within m') (h' : n.Within n') :
    (m.andThen n).Within (m'.andThen n') :=
  fun _ _ ht => (h ht).append fun ht' => h' ht'

/-- Uses of names one after the other agree until the first cut-off if those of each name do. -/
theorem within_all {use use' : String → Move} (h : ∀ name, (use name).Within (use' name))
    (names : List String) : (all (names.map use)).Within (all (names.map use')) := by
  induction names with
  | nil => exact within_rest
  | cons name names ih => exact (h name).andThen ih

/-- An action takes no budget. -/
theorem within_act (a : Action) : (act a).Within (act a) := by
  intro t t' h
  rw [act, act, ← h.actor, ← h.target]
  split
  · exact .refl _ _ h
  · split
    · exact .refl _ _ h
    · exact .refl _ _ ⟨rfl, rfl, h.exhausted, h.combosLeft⟩

/-- A combo is entered as well with more budget, and with less it may be refused. -/
theorem Within.enter (h : m.Within m') (c : Combo) : (enter c m).Within (enter c m') := by
  intro t t' ht
  rw [Move.enter, Move.enter]
  cases hleft : t.combosLeft with
  | zero => exact .stopped rfl [] _
  | succ left =>
    obtain ⟨left', hleft'⟩ : ∃ left', t'.combosLeft = left' + 1 :=
      ⟨t'.combosLeft - 1, by have := ht.combosLeft; omega⟩
    have hle : left ≤ left' := by
      have := ht.combosLeft
      omega
    rw [hleft']
    exact h ⟨ht.actor, ht.target, ht.exhausted, hle⟩

/-- A combo agrees until the first cut-off if its steps do. -/
theorem within_perform (c : Combo) (chain : List String) {step step' : List String → String → Move}
    (h : ∀ chain name, (step chain name).Within (step' chain name)) :
    (perform c chain step).Within (perform c chain step') := by
  intro t t' ht
  rw [perform, perform, ← ht.actor]
  split
  · rename_i actor hpay
    exact (within_only _).andThen (within_all (h []) c.steps)
      ⟨rfl, ht.target, ht.exhausted, ht.combosLeft⟩
  · split
    · exact within_only _ ht
    · split
      · exact within_rest ht
      · exact (within_only _).andThen (h _ _) ht

/-- What a name stands for agrees until the first cut-off if every combo does. -/
theorem Within.named (name : String) {ofCombo ofCombo' : Combo → Move}
    (h : ∀ c, (ofCombo c).Within (ofCombo' c)) :
    (named name ofCombo).Within (named name ofCombo') := by
  intro t t' ht
  rw [Move.named, Move.named, ← ht.actor, ← ht.exhausted]
  split
  · exact within_rest ht
  · split
    · exact h _ ht
    · split
      · exact within_act _ ht
      · exact within_only _ ht

/-- Wider limits change nothing about a name before it is cut off, by induction on the levels that
the narrower ones leave. -/
theorem within_resolve {levels levels' : Nat} (h : levels ≤ levels') (chain : List String)
    (name : String) : (resolve levels chain name).Within (resolve levels' chain name) := by
  induction levels generalizing levels' chain name with
  | zero =>
    -- the narrower limits cut off every combo here
    cases levels' with
    | zero => exact .named name fun c => .enter (within_only _) c
    | succ levels' => exact .named name fun c => .enter (within_of_isCutOff rfl _) c
  | succ levels ih =>
    obtain ⟨levels', rfl⟩ : ∃ left, levels' = left + 1 := ⟨levels' - 1, by omega⟩
    exact .named name fun c => .enter (within_perform c chain (ih (by omega))) c

/-- A choice agrees until the first cut-off if its branches do. -/
theorem Within.branch (h : m.Within m') (h' : n.Within n') (condition : Condition) :
    (branch condition m n).Within (branch condition m' n') := by
  intro t t' ht
  have hholds : t'.satisfies condition = t.satisfies condition := by
    rw [Turn.satisfies, Turn.satisfies]
    cases condition.subject with
    | actor => rw [Turn.subject, Turn.subject, ht.actor]
    | opponent => rw [Turn.subject, Turn.subject, ht.target]
  rw [Move.branch, Move.branch, hholds]
  split
  · exact h ht
  · exact h' ht

/-- Wider limits change nothing about a script before it is cut off. -/
theorem within_follow {levels levels' : Nat} (h : levels ≤ levels') (b : Block) :
    (follow levels b).Within (follow levels' b) := by
  induction b with
  | done => exact within_rest
  | use name span next ih => exact (within_resolve h [] name).andThen ih
  | choose condition yes no next hyes hno hnext => exact (hyes.branch hno condition).andThen hnext

end Move

/-! ### Turns, rounds and fights -/

/-- A combo is abandoned because the rules allow no more nesting, or no more combos. -/
def Event.isCutOff : Event → Bool
  | .deed _ done => done.isCutOff
  | .combatEnd .. => false

/-- The limits allow no more than others, and the same is recorded. -/
structure Rules.Within (rules rules' : Rules) : Prop where
  recordTurnStarts : rules.recordTurnStarts = rules'.recordTurnStarts
  comboDepth : rules.comboDepth ≤ rules'.comboDepth
  maxCombosPerTurn : rules.maxCombosPerTurn ≤ rules'.maxCombosPerTurn

variable {rules rules' : Rules}

/-- Turns under narrower and wider limits agree until the first cut-off. -/
theorem agreeUntil_takeTurn (h : rules.Within rules') (round : Nat) (script : Option Block)
    (actor target : Contender) :
    let e := takeTurn rules round script actor target
    let e' := takeTurn rules' round script actor target
    AgreeUntil Deed.isCutOff e.deeds e'.deeds
      (e.actor = e'.actor ∧ e.target = e'.target ∧ e.knockout = e'.knockout) := by
  cases script with
  | none => exact .refl _ [] ⟨rfl, rfl, rfl⟩
  | some block =>
    have hstart : Turn.Within ⟨actor, target, rules.maxCombosPerTurn.toNat, false⟩
        ⟨actor, target, rules'.maxCombosPerTurn.toNat, false⟩ :=
      ⟨rfl, rfl, rfl, UInt32.le_iff_toNat_le.mp h.maxCombosPerTurn⟩
    have hfollow := Move.within_follow (UInt32.le_iff_toNat_le.mp h.comboDepth) block hstart
    simp only [takeTurn, h.recordTurnStarts]
    refine (AgreeUntil.refl _ _ trivial).append fun _ => hfollow.mono fun hend => ?_
    exact ⟨hend.actor, hend.target, by rw [hend.actor, hend.target]⟩

/-- A round begins with the turn of the starter. -/
theorem prefix_playRound (rules : Rules) (scripts : Scripts) (round : Nat) (pair : Pair) :
    (takeTurn rules round scripts.starter pair.starter pair.other).deeds.map
      (.deed pair.starter.name) <+: (playRound rules scripts round pair).events := by
  simp only [playRound]
  split
  · exact List.prefix_rfl
  · exact List.prefix_append _ _

/-- Rounds under narrower and wider limits agree until the first cut-off. -/
theorem agreeUntil_playRound (h : rules.Within rules') (scripts : Scripts) (round : Nat)
    (pair : Pair) :
    let e := playRound rules scripts round pair
    let e' := playRound rules' scripts round pair
    AgreeUntil Event.isCutOff e.events e'.events (e.pair = e'.pair ∧ e.knockout = e'.knockout) := by
  intro e e'
  have hturn (script : Option Block) (actor target : Contender) (name : String) :=
    (agreeUntil_takeTurn h round script actor target).map (g := Event.isCutOff) (f := .deed name)
      fun _ => rfl
  have hfirst := hturn scripts.starter pair.starter pair.other pair.starter.name
  by_cases hsame : (takeTurn rules round scripts.starter pair.starter pair.other).knockout
      = (takeTurn rules' round scripts.starter pair.starter pair.other).knockout
  · simp only [e, e', playRound, ← hsame]
    split
    · refine hfirst.mono fun hend => ⟨?_, rfl⟩
      rw [hend.1, hend.2.1]
    · refine hfirst.append fun hend => ?_
      simp only [← hend.1, ← hend.2.1]
      refine (hturn _ _ _ _).mono fun hend => ⟨?_, hend.2.2⟩
      rw [hend.1, hend.2.1]
  · -- only one of the first turns ends the round, so the other was cut off
    exact hfirst.of_prefix (fun hend => hsame hend.2.2) (prefix_playRound rules scripts round pair)
      (prefix_playRound rules' scripts round pair)

/-- The rounds that are played are recorded at the end of a log. -/
theorem prefix_playRounds (rules : Rules) (scripts : Scripts) (left round : Nat) (pair : Pair)
    (log : Log) :
    log.entries.toList <+: (playRounds rules scripts left round pair log).log.entries.toList := by
  induction left generalizing round pair log with
  | zero => exact List.prefix_rfl
  | succ left ih =>
    have hround : log.entries.toList <+: (log.extend (round + 1)
        (playRound rules scripts (round + 1) pair).events).entries.toList := by
      rw [Log.toList_extend]
      exact List.prefix_append _ _
    simp only [playRounds]
    split
    · exact hround
    · exact hround.trans (ih _ _ _)

/-- The first of the rounds that are played is recorded first. -/
theorem prefix_playRounds_succ (rules : Rules) (scripts : Scripts) (left round : Nat) (pair : Pair)
    (log : Log) :
    (log.extend (round + 1) (playRound rules scripts (round + 1) pair).events).entries.toList
      <+: (playRounds rules scripts (left + 1) round pair log).log.entries.toList := by
  simp only [playRounds]
  split
  · exact List.prefix_rfl
  · exact prefix_playRounds _ _ _ _ _ _

/-- Wider limits change nothing about the rounds of a fight before it is cut off. -/
theorem agreeUntil_playRounds (h : rules.Within rules') (scripts : Scripts) (left round : Nat)
    {pair pair' : Pair} {log log' : Log}
    (hlog : AgreeUntil (·.event.isCutOff) log.entries.toList log'.entries.toList (pair = pair')) :
    let e := playRounds rules scripts left round pair log
    let e' := playRounds rules' scripts left round pair' log'
    AgreeUntil (·.event.isCutOff) e.log.entries.toList e'.log.entries.toList
      (e.pair = e'.pair ∧ e.round = e'.round ∧ e.knockout = e'.knockout) := by
  induction left generalizing round pair pair' log log' with
  | zero => exact hlog.mono fun heq => ⟨heq, rfl, rfl⟩
  | succ left ih =>
    intro e e'
    let played := playRound rules scripts (round + 1) pair
    let played' := playRound rules' scripts (round + 1) pair'
    have hround : AgreeUntil (·.event.isCutOff)
        (log.extend (round + 1) played.events).entries.toList
        (log'.extend (round + 1) played'.events).entries.toList
        (played.pair = played'.pair ∧ played.knockout = played'.knockout) := by
      rw [Log.toList_extend, Log.toList_extend]
      refine hlog.append fun heq => ?_
      subst heq
      exact (agreeUntil_playRound h scripts (round + 1) pair).map fun _ => rfl
    by_cases hsame : played.knockout = played'.knockout
    · simp only [e, e', playRounds]
      rw [← show played.knockout = (playRound rules' scripts (round + 1) pair').knockout from hsame]
      split
      · exact hround.mono fun hend => ⟨hend.1, rfl, rfl⟩
      · exact ih (round + 1) (hround.mono And.left)
    · -- only one of the rounds ends the fight, so the other was cut off
      exact hround.of_prefix (fun hend => hsame hend.2)
        (prefix_playRounds_succ rules scripts left round pair log)
        (prefix_playRounds_succ rules' scripts left round pair' log')

/-- Wider limits change nothing about a fight before it is cut off. -/
theorem agreeUntil_fight (h : rules.Within rules') (p : Program) (starter other : Fighter) :
    AgreeUntil (·.event.isCutOff) (fight rules p starter other).log.entries.toList
      (fight rules' p starter other).log.entries.toList
      ((fight rules p starter other).result = (fight rules' p starter other).result) := by
  have hstart : AgreeUntil (·.event.isCutOff) Log.empty.entries.toList Log.empty.entries.toList
      (Pair.mk (.fresh starter) (.fresh other) = ⟨.fresh starter, .fresh other⟩) :=
    .refl _ _ rfl
  simp only [fight, Ending.finish, Log.push, Array.toList_push]
  refine (agreeUntil_playRounds h _ p.matchup.maxTurns.toNat 0 hstart).append ?_
  rintro ⟨hpair, hround, hknockout⟩
  rw [hpair, hround, hknockout]
  exact .refl _ _ rfl

/-- What is allowed makes no difference before it is exceeded. Where the limits of some rules are no
wider than those of others, a fight under the others has all records before the first one that says
that a combo is abandoned for a limit, and it is the same fight if no record says that. -/
theorem limits_transparent (rules rules' : Rules) (p : Program) (finished : Finished)
    (hstarts : rules.recordTurnStarts = rules'.recordTurnStarts)
    (hdepth : rules.comboDepth ≤ rules'.comboDepth)
    (hbudget : rules.maxCombosPerTurn ≤ rules'.maxCombosPerTurn)
    (h : run rules p = .ok finished) :
    ∃ finished', run rules' p = .ok finished' ∧
      finished.log.records.takeWhile (!·.event.isCutOff) <+: finished'.log.records ∧
      ((∀ r ∈ finished.log.records, r.event.isCutOff = false) → finished' = finished) := by
  obtain ⟨hsound, b, hstages, rfl⟩ := run_eq_ok_iff.mp h
  have hstages' : Bout.Stages { b with rules := rules' } rules' p :=
    ⟨rfl, hstages.fighter, hstages.script⟩
  have hagree := agreeUntil_fight ⟨hstarts, hdepth, hbudget⟩ p (b.fighter .starter)
    (b.fighter .other)
  refine ⟨_, run_eq_ok_iff.mpr ⟨hsound, _, hstages', rfl⟩, ?_, fun hfree => ?_⟩
  · rw [Log.takeWhile_records (!·.isCutOff)]
    exact Log.prefix_mapIdx_record hagree.before
  · obtain ⟨hlog, hresult⟩ := hagree.whole
      (Log.forall_mem_records (P := (·.isCutOff = false)).mp hfree)
    rw [Finished.mk.injEq]
    exact ⟨Log.ext_toList hlog.symm, hresult.symm⟩

/-- The duel with no combo within another and three combos a turn, against wider limits. -/
theorem limits_transparent_duel :
    let narrow : Rules := ⟨0, 3, true⟩
    let wide : Rules := ⟨1000, 5, true⟩
    let finished := fight narrow .duel .beto .ana
    narrow.recordTurnStarts = wide.recordTurnStarts ∧ narrow.comboDepth ≤ wide.comboDepth ∧
      narrow.maxCombosPerTurn ≤ wide.maxCombosPerTurn ∧ run narrow .duel = .ok finished ∧
      ∃ finished', run wide .duel = .ok finished' ∧
        finished.log.records.takeWhile (!·.event.isCutOff) <+: finished'.log.records ∧
        ((∀ r ∈ finished.log.records, r.event.isCutOff = false) → finished' = finished) :=
  ⟨rfl, by decide, by decide, rfl, limits_transparent ⟨0, 3, true⟩ ⟨1000, 5, true⟩ .duel _ rfl
    (by decide) (by decide) rfl⟩

end Lucha.Combat
