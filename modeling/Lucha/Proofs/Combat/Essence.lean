import Lucha.Proofs.Combat.Closure
import Lucha.Proofs.Combat.Fight
import Lucha.Proofs.Program.Printable
import Lucha.Proofs.Program.Spans

/-!
# What a fight depends on

Of an action only the kind and the name bear on a fight and, if it is no block, the damage and the
cost (`Action.essence`); of a combo and of a script all but the spans. Moves do not notice when
fighters are reduced to that (`Move.blind_follow`), nor do turns, rounds and fights. So programs
whose combatants and effective scripts are alike (`Program.Alike`) have the same fight, whatever
else they declare (`run_eq_of_alike`).
-/

namespace Lucha

/-- An action without what does not bear on a fight. -/
def Action.essence (a : Action) : Action where
  kind := a.kind
  name := a.name
  damage := if a.isBlock then 0 else a.damage
  cost := if a.isBlock then 0 else a.cost
  span := .none

/-- A fighter without what does not bear on a fight. -/
def Fighter.essence (f : Fighter) : Fighter :=
  { f with
    actions := f.actions.map Action.essence
    combos := f.combos.map Combo.eraseSpan
    span := .none }

namespace Combat

/-- A contender without what does not bear on the fight. -/
def Contender.essence (c : Contender) : Contender :=
  { c with fighter := c.fighter.essence }

/-- A turn between contenders without what does not bear on the fight. -/
def Turn.essence (t : Turn) : Turn :=
  { t with actor := t.actor.essence, target := t.target.essence }

/-- What a contender can pay does not depend on what does not bear on the fight. -/
theorem Contender.pay?_essence (c : Contender) (cost : Quantity) :
    c.essence.pay? cost = (c.pay? cost).map essence := by
  rw [pay?, pay?, Option.map_map]
  rfl

namespace Move

/-- The move does not notice when the contenders are without what does not bear on the fight. -/
def Blind (m : Move) : Prop :=
  ∀ t : Turn, m t.essence = ((m t).1, (m t).2.essence)

variable {m m' : Move}

/-- To do nothing notices nothing. -/
theorem blind_rest : rest.Blind := fun _ => rfl

theorem blind_only (deed : Deed) : (only deed).Blind := fun _ => rfl

/-- Two moves in a row do not notice what does not bear on the fight if neither does. -/
theorem Blind.andThen (h : m.Blind) (h' : m'.Blind) : (m.andThen m').Blind := by
  intro t
  simp only [Move.andThen, h t, h' (m t).2]

/-- Using an action is using what of it bears on a fight. -/
theorem act_essence (a : Action) : act a.essence = act a := by
  funext t
  have hblock : a.essence.isBlock = a.isBlock := rfl
  rw [act, act, hblock]
  by_cases h : a.isBlock
  · rw [if_pos h, if_pos h]
    rfl
  · simp only [Action.essence, h, Bool.false_eq_true, if_false]

/-- An attack shows its damage and its cost, and a block neither. -/
theorem blind_act (a : Action) : (act a).Blind := by
  intro t
  rw [act, act]
  simp only [Turn.essence, Contender.pay?_essence]
  split
  · rfl
  · cases t.actor.pay? a.cost <;> rfl

/-- To enter a combo notices no more than what follows does. -/
theorem Blind.enter (h : m.Blind) (c : Combo) : (enter c m).Blind := by
  intro t
  rw [Move.enter, Move.enter]
  have hleft : t.essence.combosLeft = t.combosLeft := rfl
  rw [hleft]
  split
  · rfl
  · rename_i left hleft
    exact h { t with combosLeft := left }

/-- A combo notices no more than its steps do. -/
theorem blind_perform (c : Combo) (chain : List String) {step : List String → String → Move}
    (h : ∀ chain name, (step chain name).Blind) : (perform c chain step).Blind := by
  intro t
  have hpay : t.essence.actor.pay? c.cost = (t.actor.pay? c.cost).map Contender.essence :=
    t.actor.pay?_essence c.cost
  rw [perform, perform, hpay]
  cases t.actor.pay? c.cost with
  | some actor =>
    have hsteps : (all (c.steps.map (step []))).Blind :=
      all_induction blind_rest Blind.andThen (List.forall_mem_map.mpr fun name _ => h [] name)
    exact (blind_only _).andThen hsteps { t with actor }
  | none =>
    simp only [Option.map_none]
    split
    · rfl
    · split
      · rfl
      · rename_i first hfirst
        exact (blind_only _).andThen (h (c.name :: chain) first) t

/-- A name notices no more than the combos do, if their own spans do not matter. -/
theorem Blind.named (name : String) {ofCombo : Combo → Move}
    (hspan : ∀ c span, ofCombo { c with span } = ofCombo c) (h : ∀ c, (ofCombo c).Blind) :
    (named name ofCombo).Blind := by
  intro t
  have hcombos : t.essence.actor.fighter.combos.find? name
      = (t.actor.fighter.combos.find? name).map Combo.eraseSpan := Table.find?_map _ _ name
  have hactions : t.essence.actor.fighter.actions.find? name
      = (t.actor.fighter.actions.find? name).map Action.essence := Table.find?_map _ _ name
  have hexhausted : t.essence.exhausted = t.exhausted := rfl
  rw [Move.named, Move.named, hcombos, hactions, hexhausted]
  split
  · rfl
  · cases t.actor.fighter.combos.find? name with
    | some c =>
      have herase : ofCombo c.eraseSpan = ofCombo c := hspan c .none
      simp only [Option.map_some, herase]
      exact h c t
    | none =>
      cases t.actor.fighter.actions.find? name with
      | some a =>
        simp only [Option.map_some, Option.map_none, act_essence]
        exact blind_act a t
      | none => rfl

/-- A choice notices no more than its branches do. -/
theorem Blind.branch (h : m.Blind) (h' : m'.Blind) (condition : Condition) :
    (branch condition m m').Blind := by
  intro t
  have hholds : t.essence.satisfies condition = t.satisfies condition := by
    rw [Turn.satisfies, Turn.satisfies]
    cases condition.subject <;> cases condition.stat <;> rfl
  rw [Move.branch, Move.branch, hholds]
  split
  · exact h t
  · exact h' t

/-- So no move that scripts are made of notices what does not bear on the fight. -/
theorem closed_blind : Closed Blind where
  rest := blind_rest
  andThen := Blind.andThen
  branch condition _ _ h h' := h.branch h' condition
  enter c _ h := h.enter c
  tooDeep _ := blind_only _
  perform := blind_perform
  named name _ := .named name

/-- What comes of a script depends on nothing but what bears on the fight. -/
theorem blind_follow (levels : Nat) (b : Block) : (follow levels b).Blind :=
  closed_blind.follow levels b

/-- Where a script is written makes no difference. -/
theorem follow_eraseSpans (levels : Nat) (b : Block) :
    follow levels b.eraseSpans = follow levels b := by
  induction b with
  | done => rfl
  | use name span next ih => rw [Block.eraseSpans, follow, follow, ih]
  | choose condition yes no next hyes hno hnext =>
    rw [Block.eraseSpans, follow, follow, hyes, hno, hnext]

end Move

/-! ### Turns, rounds and fights -/

/-- What came of a turn, without what does not bear on the fight. -/
def TurnEnd.essence (e : TurnEnd) : TurnEnd :=
  { e with actor := e.actor.essence, target := e.target.essence }

/-- A pair of contenders without what does not bear on the fight. -/
def Pair.essence (pair : Pair) : Pair :=
  ⟨pair.starter.essence, pair.other.essence⟩

/-- Scripts in no source text. -/
def Scripts.eraseSpans (scripts : Scripts) : Scripts :=
  ⟨scripts.starter.map Block.eraseSpans, scripts.other.map Block.eraseSpans⟩

/-- A turn between contenders without what does not bear on the fight is the same turn. -/
theorem takeTurn_essence (rules : Rules) (round : Nat) (script : Option Block)
    (actor target : Contender) :
    takeTurn rules round (script.map Block.eraseSpans) actor.essence target.essence
      = (takeTurn rules round script actor target).essence := by
  cases script with
  | none => rfl
  | some block =>
    have hfollow := Move.blind_follow rules.comboDepth.toNat block
      ⟨actor, target, rules.maxCombosPerTurn.toNat, false⟩
    simp only [Turn.essence] at hfollow
    simp only [Option.map_some, takeTurn, Move.follow_eraseSpans, hfollow]
    rfl

/-- So is a round. -/
theorem playRound_essence (rules : Rules) (scripts : Scripts) (round : Nat) (pair : Pair) :
    playRound rules scripts.eraseSpans round pair.essence
      = { playRound rules scripts round pair with
          pair := (playRound rules scripts round pair).pair.essence } := by
  have hname (c : Contender) : c.essence.name = c.name := rfl
  simp only [playRound, Scripts.eraseSpans, Pair.essence, takeTurn_essence, TurnEnd.essence, hname]
  split <;> rfl

/-- What came of some rounds, without what does not bear on the fight. -/
def Ending.essence (e : Ending) : Ending := { e with pair := e.pair.essence }

/-- So are all rounds one after the other. -/
theorem playRounds_essence (rules : Rules) (scripts : Scripts) (left round : Nat) (pair : Pair)
    (log : Log) :
    playRounds rules scripts.eraseSpans left round pair.essence log
      = (playRounds rules scripts left round pair log).essence := by
  induction left generalizing round pair log with
  | zero => rfl
  | succ left ih =>
    simp only [playRounds, playRound_essence]
    split
    · rfl
    · exact ih _ _ _

/-- What is told at the end shows nothing that does not bear on the fight. -/
theorem Ending.finish_essence (e : Ending) (fighterA : String) :
    e.essence.finish fighterA = e.finish fighterA := by
  have hsnapshot (c : Contender) : c.essence.snapshot = c.snapshot := rfl
  have hname (c : Contender) : c.essence.name = c.name := rfl
  simp only [finish, essence, Pair.essence, hname]
  split <;> simp only [hsnapshot]

end Combat

/-! ### Programs that are alike -/

/-- Fighters are alike in what bears on a fight: the same hit points and stamina, actions that are
the same up to spans, descriptions and the values of blocks, and combos that are the same up to
spans. -/
structure Fighter.Alike (f g : Fighter) : Prop where
  hpMax : f.hpMax = g.hpMax
  staminaMax : f.staminaMax = g.staminaMax
  actions : f.actions.map Action.essence = g.actions.map Action.essence
  combos : f.combos.map Combo.eraseSpan = g.combos.map Combo.eraseSpan

/-- Programs are alike in what bears on a fight: the same matchup up to its span, combatants that
are alike, and for each of them either no script or effective scripts that are the same up to
spans. -/
structure Program.Alike (p q : Program) : Prop where
  matchup : p.matchup.eraseSpan = q.matchup.eraseSpan
  fighters : ∀ name ∈ [p.matchup.fighterA, p.matchup.fighterB], ∃ f g,
    p.fighters.find? name = some f ∧ q.fighters.find? name = some g ∧ f.Alike g
  scripts : ∀ name ∈ [p.matchup.fighterA, p.matchup.fighterB],
    (p.scriptFor? name).map (·.body.eraseSpans) = (q.scriptFor? name).map (·.body.eraseSpans)

theorem Fighter.Alike.symm {f g : Fighter} (h : f.Alike g) : g.Alike f :=
  ⟨h.hpMax.symm, h.staminaMax.symm, h.actions.symm, h.combos.symm⟩

/-- Fighters of one name that are alike have the same essence. -/
theorem Fighter.Alike.essence_eq {f g : Fighter} (h : f.Alike g) (hname : f.name = g.name) :
    f.essence = g.essence := by
  rw [essence, essence, hname, h.hpMax, h.staminaMax, h.actions, h.combos]

namespace Program.Alike

variable {p q : Program}

/-- Programs that are alike have the same matchup up to its span. -/
theorem matchup_eq (h : p.Alike q) : p.matchup = { q.matchup with span := p.matchup.span } :=
  congrArg (fun m : Matchup => { m with span := p.matchup.span }) h.matchup

theorem fighterA_eq (h : p.Alike q) : p.matchup.fighterA = q.matchup.fighterA := by
  rw [h.matchup_eq]

theorem fighterB_eq (h : p.Alike q) : p.matchup.fighterB = q.matchup.fighterB := by
  rw [h.matchup_eq]

theorem starter_eq (h : p.Alike q) : p.matchup.starter = q.matchup.starter := by
  rw [h.matchup_eq]

theorem maxTurns_eq (h : p.Alike q) : p.matchup.maxTurns = q.matchup.maxTurns := by
  rw [h.matchup_eq]

/-- Programs that are alike have the same combatant on each side. -/
theorem combatant_eq (h : p.Alike q) (side : Combat.Side) :
    p.matchup.combatant side = q.matchup.combatant side := by
  rw [h.matchup_eq]
  cases side <;> rfl

/-- To be alike goes both ways. -/
theorem symm (h : p.Alike q) : q.Alike p where
  matchup := h.matchup.symm
  fighters name hname := by
    rw [← h.fighterA_eq, ← h.fighterB_eq] at hname
    obtain ⟨f, g, hf, hg, halike⟩ := h.fighters name hname
    exact ⟨g, f, hg, hf, halike.symm⟩
  scripts name hname := by
    rw [← h.fighterA_eq, ← h.fighterB_eq] at hname
    exact (h.scripts name hname).symm

/-- A program that is like a sound one is sound. -/
theorem sound (h : p.Alike q) (hp : p.Sound) : q.Sound := by
  have hdeclared (name : String) (hname : name ∈ [p.matchup.fighterA, p.matchup.fighterB]) :
      q.fighters.contains name = true := by
    obtain ⟨-, g, -, hg, -⟩ := h.fighters name hname
    exact q.fighters.contains_eq_true_iff.mpr ⟨g, hg⟩
  refine ⟨?_, ?_, ?_, ?_, ?_⟩
  · exact h.fighterA_eq ▸ hdeclared p.matchup.fighterA (by simp)
  · exact h.fighterB_eq ▸ hdeclared p.matchup.fighterB (by simp)
  · exact h.fighterA_eq ▸ h.fighterB_eq ▸ hp.combatants
  · exact h.fighterA_eq ▸ h.fighterB_eq ▸ h.starter_eq ▸ hp.starter
  · exact h.maxTurns_eq ▸ hp.maxTurns

end Program.Alike

namespace Combat

/-- A fight is one of the essences of its fighters with scripts in no source text. -/
theorem fight_essence (rules : Rules) (p : Program) (starter other : Fighter) :
    fight rules p starter other
      = (playRounds rules
          ⟨(p.scriptFor? (p.matchup.combatant .starter)).map (·.body.eraseSpans),
            (p.scriptFor? (p.matchup.combatant .other)).map (·.body.eraseSpans)⟩
          p.matchup.maxTurns.toNat 0 ⟨.fresh starter.essence, .fresh other.essence⟩ .empty).finish
            p.matchup.fighterA := by
  have hscripts (name : String) : (p.scriptFor? name).map (·.body.eraseSpans)
      = ((p.scriptFor? name).map Script.body).map Block.eraseSpans := by
    rw [Option.map_map]
    rfl
  have hrounds := playRounds_essence rules
    ⟨(p.scriptFor? p.matchup.starter).map Script.body,
      (p.scriptFor? p.matchup.second).map Script.body⟩ p.matchup.maxTurns.toNat 0
    ⟨.fresh starter, .fresh other⟩ .empty
  rw [hscripts, hscripts]
  exact (Ending.finish_essence _ _).symm.trans
    (congrArg (Ending.finish · p.matchup.fighterA) hrounds.symm)

/-- Programs that are alike have the same fight. -/
theorem run_of_alike {rules : Rules} {p q : Program} {finished : Finished}
    (hp : p.fighters.Keyed Fighter.name) (hq : q.fighters.Keyed Fighter.name) (h : p.Alike q)
    (hrun : run rules p = .ok finished) : run rules q = .ok finished := by
  obtain ⟨hsound, b, hstages, rfl⟩ := run_eq_ok_iff.mp hrun
  have hfighter (side : Side) : ∃ g, q.fighters.find? (q.matchup.combatant side) = some g ∧
      (b.fighter side).essence = g.essence := by
    obtain ⟨f, g, hf, hg, halike⟩ := h.fighters _ (hsound.combatant_mem side)
    cases hf.symm.trans (hstages.fighter side)
    exact ⟨g, h.combatant_eq side ▸ hg, halike.essence_eq ((hp hf).trans (hq hg).symm)⟩
  obtain ⟨starter, hstarter, hstarterEq⟩ := hfighter .starter
  obtain ⟨other, hother, hotherEq⟩ := hfighter .other
  refine run_eq_ok_iff.mpr
    ⟨h.sound hsound, boutOf rules q starter other, ⟨rfl, ?_, fun _ => rfl⟩, ?_⟩
  · rintro (_ | _)
    · exact hstarter
    · exact hother
  · have hscript (side : Side) := h.scripts _ (hsound.combatant_mem side)
    rw [fight_essence, hscript, hscript, h.combatant_eq, h.combatant_eq, h.maxTurns_eq,
      h.fighterA_eq, hstarterEq, hotherEq]
    exact (fight_essence rules q starter other).symm

/-- A fight depends on nothing but the matchup, its combatants and their effective scripts, and of
these on nothing that only describes. Programs that are alike in what bears on a fight have the same
log and the same result, if one of them can be fought at all. -/
theorem run_eq_of_alike (rules : Rules) (p q : Program) (finished : Finished)
    (hp : p.fighters.Keyed Fighter.name) (hq : q.fighters.Keyed Fighter.name) (h : p.Alike q) :
    run rules p = .ok finished ↔ run rules q = .ok finished :=
  ⟨run_of_alike hp hq h, run_of_alike hq hp h.symm⟩

end Combat

/-- The duel with more fighters, a script that a later one replaces, other spans and other
descriptions. -/
def Program.crowdedDuel : Program where
  fighters := ⟨[
    ("Ana", { Fighter.ana with
      actions := ⟨[("guardia", ⟨.block, "guardia", 7, 2, some .low, none, true, .onLine 3⟩),
        ("jab", ⟨.strike, "jab", 4, 3, none, some .frontal, true, .onLine 2⟩)], by decide⟩
      span := .onLine 1 }),
    ("Beto", { Fighter.beto with
      combos := ⟨[("ronda", ⟨"ronda", 20, ["giro"], .onLine 9⟩)], by decide⟩ }),
    ("Caro", { Fighter.beto with name := "Caro" })], by decide⟩
  matchup := { Program.duel.matchup with span := .onLine 15 }
  scripts := [
    ⟨"Ana", .use "guardia" (.onLine 20) .done, .onLine 19⟩,
    ⟨"Caro", .use "giro" (.onLine 23) .done, .onLine 22⟩,
    ⟨"Ana", .choose ⟨.actor, .hp, .greater, 10⟩ (.use "doble" (.onLine 26) .done)
      (.use "guardia" (.onLine 27) .done) .done, .onLine 25⟩,
    ⟨"Beto", .use "ronda" (.onLine 30) .done, .onLine 29⟩]

namespace Combat

/-- The duel and the crowded one have the same fight. -/
theorem run_eq_of_alike_crowdedDuel :
    let finished := fight {} .duel .beto .ana
    Program.duel.fighters.Keyed Fighter.name ∧ Program.crowdedDuel.fighters.Keyed Fighter.name ∧
      Program.duel.Alike .crowdedDuel ∧ run {} .duel = .ok finished ∧
      (run {} .duel = .ok finished ↔ run {} .crowdedDuel = .ok finished) :=
  have hfighters : ∀ name ∈ ["Ana", "Beto"], ∃ f g, Program.duel.fighters.find? name = some f ∧
      Program.crowdedDuel.fighters.find? name = some g ∧ f.Alike g :=
    List.forall_mem_cons.mpr ⟨⟨_, _, rfl, rfl, rfl, rfl, rfl, rfl⟩,
      List.forall_mem_singleton.mpr ⟨_, _, rfl, rfl, rfl, rfl, rfl, rfl⟩⟩
  have halike : Program.duel.Alike .crowdedDuel := ⟨rfl, hfighters, by decide⟩
  ⟨by decide, by decide, halike, rfl,
    run_eq_of_alike {} .duel .crowdedDuel _ (by decide) (by decide) halike⟩

end Combat

end Lucha
