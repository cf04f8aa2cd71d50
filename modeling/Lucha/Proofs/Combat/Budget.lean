import Lucha.Proofs.Combat.Rounds
import Lucha.Proofs.Combat.Structure
import Mathlib.Algebra.Order.BigOperators.Group.List
import Mathlib.Algebra.Order.Ring.Nat

/-!
# The budget of a turn

Every combo that is entered takes one from the budget of the turn and gives one deed that is about
it: it is paid for, falls back or is abandoned. So the deeds about combos and what is left of the
budget add up to the same (`Move.Spent`), and a turn in which no more is left ends with the first
combo that is refused. The steps of the combos that are entered bound the deeds, however combos
refer to each other (`turns_within_budget`).
-/

namespace Lucha

/-- The largest number of steps of a combo. -/
def Fighter.mostSteps (f : Fighter) : Nat :=
  (f.combos.values.map fun c => c.steps.length).foldr max 0

/-- No combo of a fighter has more steps than the one with the most. -/
theorem Fighter.length_steps_le {f : Fighter} {name : String} {c : Combo}
    (h : f.combos.find? name = some c) : c.steps.length ≤ f.mostSteps := by
  have hmem : c ∈ f.combos.values :=
    List.mem_map_of_mem (f := Prod.snd) (f.combos.find?_eq_some_iff_mem.mp h)
  rw [mostSteps]
  generalize f.combos.values = values at hmem ⊢
  induction values with
  | nil => cases hmem
  | cons first values ih =>
    obtain rfl | hlater := List.mem_cons.mp hmem
    · exact Nat.le_max_left _ _
    · exact (ih hlater).trans (Nat.le_max_right _ _)

namespace Combat

/-- A combo is abandoned for want of budget. -/
def Deed.isRefusal : Deed → Bool
  | .abortCombo _ .budget => true
  | _ => false

/-- A combo was entered: it is paid for, falls back, or is abandoned for another reason than want of
budget. -/
def Deed.isEntry (deed : Deed) : Bool :=
  deed.combo?.isSome && !deed.isRefusal

/-- What some deeds take from what is left of a budget, where `steps` bounds the steps of a combo.
They come of so many names at most, apart from the steps of the combos that are entered, and begin
within so many combos that were entered before. -/
structure Spent (steps names before left : Nat) (deeds : List Deed) (t' : Turn) : Prop where
  entered : deeds.countP Deed.isEntry + t'.combosLeft = left + before
  length : deeds.length + t'.combosLeft * steps ≤ names + left * steps
  /-- A combo is refused only as the last deed, with nothing left. -/
  refused : (∀ deed ∈ deeds, deed.isRefusal = false) ∧ t'.exhausted = false ∨
    ∃ done last, deeds = done ++ [last] ∧ (∀ deed ∈ done, deed.isRefusal = false) ∧
      last.isRefusal = true ∧ t'.combosLeft = 0 ∧ t'.exhausted = true

namespace Move

/-- From turns of the fighter that are not exhausted. -/
def Spends (f : Fighter) (names before : Nat) (m : Move) : Prop :=
  ∀ ⦃t : Turn⦄, t.actor.fighter = f → t.exhausted = false →
    Spent f.mostSteps names before t.combosLeft (m t).1 (m t).2

variable {f : Fighter} {m m' : Move} {names more before : Nat}

/-- A move that comes of some names at most comes of more of them at most. -/
theorem Spends.mono (h : m.Spends f names before) (hle : names ≤ more) :
    m.Spends f more before := by
  intro t hf ht
  obtain ⟨hentered, hlength, hrefused⟩ := h hf ht
  exact ⟨hentered, by omega, hrefused⟩

/-- To do nothing comes of no name and enters no combo. -/
theorem spends_rest : rest.Spends f 0 0 :=
  fun _ _ ht => ⟨by simp [rest], by simp [rest], .inl ⟨by simp [rest], ht⟩⟩

/-- A single deed, which refuses nothing. -/
theorem spends_only (deed : Deed) (h : deed.isRefusal = false) :
    (only deed).Spends f 1 (if deed.isEntry then 1 else 0) := by
  intro t _ ht
  refine ⟨?_, Nat.le_refl _, .inl ⟨List.forall_mem_singleton.mpr h, ht⟩⟩
  simp only [only, List.countP_singleton]
  omega

/-- Moves one after the other. An exhausted turn does not go on. -/
theorem Spends.andThen (h : m.Spends f names before) (hkeeps : m.KeepsFighters)
    (h' : m'.Spends f more 0) (hstops : m'.Stops) :
    (m.andThen m').Spends f (names + more) before := by
  intro t hf ht
  obtain ⟨hentered, hlength, hfresh | hdone⟩ := h hf ht
  · obtain ⟨hfree, hgoes⟩ := hfresh
    obtain ⟨hentered', hlength', hrefused⟩ := h' ((hkeeps t).1.trans hf) hgoes
    refine ⟨?_, ?_, ?_⟩
    · simp only [Move.andThen, List.countP_append]
      omega
    · simp only [Move.andThen, List.length_append]
      omega
    · obtain ⟨hfree', hgoes'⟩ | ⟨done, last, hdeeds, hfree', hlast⟩ := hrefused
      · exact .inl ⟨List.forall_mem_append.mpr ⟨hfree, hfree'⟩, hgoes'⟩
      · refine .inr ⟨(m t).1 ++ done, last, ?_, List.forall_mem_append.mpr ⟨hfree, hfree'⟩, hlast⟩
        simp only [Move.andThen, hdeeds, List.append_assoc]
  · obtain ⟨done, last, hdeeds, hfree, hlast, hleft, hout⟩ := hdone
    simp only [Move.andThen, hstops hout, List.append_nil]
    exact ⟨hentered, by omega, .inr ⟨done, last, hdeeds, hfree, hlast, hleft, hout⟩⟩

/-- Names are used one after the other. -/
theorem spends_all {use : String → Move} (h : ∀ name, (use name).Spends f 1 0)
    (hkeeps : ∀ name, (use name).KeepsFighters) (hstops : ∀ name, (use name).Stops)
    (names : List String) :
    (all (names.map use)).Spends f names.length 0 ∧ (all (names.map use)).Stops := by
  induction names with
  | nil => exact ⟨spends_rest, stops_rest⟩
  | cons name names ih =>
    refine ⟨?_, (hstops name).andThen ih.2⟩
    rw [List.length_cons, Nat.add_comm]
    exact (h name).andThen (hkeeps name) ih.1 ih.2

/-- Entering a combo takes one from the budget, which pays for the deed about the combo and for its
steps. -/
theorem Spends.enter {c : Combo} (h : m.Spends f (1 + f.mostSteps) 1) :
    (enter c m).Spends f 1 0 := by
  intro t hf ht
  rw [Move.enter]
  split
  · rename_i hleft
    refine ⟨?_, Nat.le_refl _, .inr ⟨[], .abortCombo c.name .budget, rfl, by simp, rfl, hleft,
      rfl⟩⟩
    exact Nat.zero_add _
  · rename_i left hleft
    obtain ⟨hentered, hlength, hrefused⟩ := h (t := { t with combosLeft := left }) hf ht
    refine ⟨?_, ?_, hrefused⟩
    · rw [hleft]
      exact hentered
    · rw [hleft, Nat.succ_mul]
      dsimp only at hlength
      omega

/-- Doing a combo that was entered. -/
theorem spends_perform (hsteps : HasSteps f) {name : String} {c : Combo}
    (hc : f.combos.find? name = some c) (chain : List String)
    {step : List String → String → Move} (h : ∀ chain name, (step chain name).Spends f 1 0)
    (hkeeps : ∀ chain name, (step chain name).KeepsFighters)
    (hstops : ∀ chain name, (step chain name).Stops) :
    (perform c chain step).Spends f (1 + f.mostSteps) 1 := by
  intro t hf ht
  have hle := Fighter.length_steps_le hc
  have hpos := List.length_pos_of_ne_nil (hsteps hc)
  rw [perform]
  split
  · rename_i actor hpay
    obtain ⟨hall, hstop⟩ := spends_all (h []) (hkeeps []) (hstops []) c.steps
    have hpaid := (spends_only (f := f) (.executeCombo c.name c.cost actor.stamina)
      rfl).andThen (keepsFighters_only _) hall hstop
    exact hpaid.mono (Nat.add_le_add_left hle 1) (t := { t with actor })
      ((fighter_of_pay? hpay).trans hf) ht
  · split
    · exact (spends_only (f := f) (.abortCombo c.name .cycle) rfl).mono (by omega) hf ht
    · split
      · rename_i hnone
        exact absurd (List.head?_eq_none_iff.mp hnone) (hsteps hc)
      · rename_i first hfirst
        have hfall := (spends_only (f := f)
          (.fallBack c.name c.cost t.actor.stamina first) rfl).andThen
            (keepsFighters_only _) (h (c.name :: chain) first) (hstops _ _)
        exact hfall.mono (by omega) hf ht

/-- An action is one deed and enters no combo. -/
theorem spends_act (a : Action) : (act a).Spends f 1 0 := by
  intro t hf ht
  rw [act]
  split
  · exact spends_only (.useBlock a.name) rfl hf ht
  · split
    · exact spends_only (.failAction a.name a.cost t.actor.stamina) rfl hf ht
    · exact ⟨Nat.zero_add _, Nat.le_refl _, .inl ⟨List.forall_mem_singleton.mpr rfl, ht⟩⟩

/-- A name that is used is one name, if that is so for every combo it may stand for. -/
theorem spends_named (name : String) {ofCombo : Combo → Move}
    (h : ∀ c, f.combos.find? name = some c → (ofCombo c).Spends f 1 0) :
    (named name ofCombo).Spends f 1 0 := by
  intro t hf ht
  rw [named, hf, if_neg (ht ▸ Bool.false_ne_true)]
  split
  · exact h _ ‹_› hf ht
  · split
    · exact spends_act _ hf ht
    · exact spends_only (.failName name) rfl hf ht

/-- What comes of a name leaves the fighters as declared. -/
theorem keepsFighters_resolve (levels : Nat) (chain : List String) (name : String) :
    (resolve levels chain name).KeepsFighters :=
  closed_keepsFighters.resolve levels chain name

/-- Using a name, by induction on the levels that are left. -/
theorem spends_resolve (hsteps : HasSteps f) (levels : Nat) (chain : List String) (name : String) :
    (resolve levels chain name).Spends f 1 0 := by
  induction levels generalizing chain name with
  | zero =>
    refine spends_named name fun c _ => .enter ?_
    exact (spends_only (.abortCombo c.name .depthLimit) rfl).mono (by omega)
  | succ levels ih =>
    exact spends_named name fun c hc => .enter (spends_perform hsteps hc chain ih
      (keepsFighters_resolve levels) (stops_resolve levels))

/-- Following a script uses no more names than it has. -/
theorem spends_follow (hsteps : HasSteps f) (levels : Nat) (b : Block) :
    (follow levels b).Spends f b.uses.length 0 := by
  induction b with
  | done => exact spends_rest
  | use name span next ih =>
    rw [Block.uses, List.length_cons, Nat.add_comm]
    exact (spends_resolve hsteps levels [] name).andThen (keepsFighters_resolve levels [] name) ih
      (stops_follow levels next)
  | choose condition yes no next hyes hno hnext =>
    have hchosen : (branch condition (follow levels yes) (follow levels no)).Spends f
        (yes.uses.length + no.uses.length) 0 := by
      intro t hf ht
      rw [branch]
      split
      · exact hyes.mono (Nat.le_add_right _ _) hf ht
      · exact hno.mono (Nat.le_add_left _ _) hf ht
    have hkeeps := (keepsFighters_follow levels yes).branch (keepsFighters_follow levels no)
      condition
    rw [Block.uses, List.length_append, List.length_append, ← Nat.add_assoc]
    exact hchosen.andThen hkeeps hnext (stops_follow levels next)

end Move

/-- The most deeds of a turn of a fighter: its start, one for each use in its script, and the steps
of the combos that the budget allows. -/
def turnBound (rules : Rules) (p : Program) (name : String) : Nat :=
  1 + (p.scriptFor? name).elim 0 (fun script => script.body.uses.length)
    + rules.maxCombosPerTurn.toNat * (p.fighters.find? name).elim 0 Fighter.mostSteps

/-- A turn keeps to the budget of the rules: no more combos are entered, only one more is refused,
and that ends the turn. -/
structure WithinBudget (rules : Rules) (p : Program) (turn : TakenTurn) : Prop where
  entered : turn.deeds.countP Deed.isEntry ≤ rules.maxCombosPerTurn.toNat
  refusedOnce : turn.deeds.countP Deed.isRefusal ≤ 1
  refused : ∀ done deed later, turn.deeds = done ++ deed :: later → deed.isRefusal = true →
    later = [] ∧ done.countP Deed.isEntry = rules.maxCombosPerTurn.toNat
  length : turn.deeds.length ≤ turnBound rules p turn.actor

/-- The start of a turn is one deed at most, and about no combo. -/
theorem startDeeds_plain (rules : Rules) (round : Nat) :
    (startDeeds rules round).length ≤ 1 ∧
      (∀ deed ∈ startDeeds rules round, deed.isRefusal = false) ∧
      (startDeeds rules round).countP Deed.isEntry = 0 := by
  rw [startDeeds]
  split
  · exact ⟨Nat.le_refl 1, List.forall_mem_singleton.mpr rfl, rfl⟩
  · exact ⟨Nat.zero_le 1, List.forall_mem_nil _, rfl⟩

/-- Where only the last deed is a refusal, every refusal is that deed. -/
private theorem eq_of_refusal {before done later : List Deed} {last deed : Deed}
    (hfree : ∀ deed ∈ before, deed.isRefusal = false)
    (h : before ++ [last] = done ++ deed :: later) (hdeed : deed.isRefusal = true) :
    later = [] ∧ done = before := by
  obtain rfl | ⟨later, last', rfl⟩ := List.eq_nil_or_concat' later
  · exact ⟨rfl, (List.append_inj_left' h rfl).symm⟩
  · -- the refusal would stand before the last deed
    rw [← List.cons_append, ← List.append_assoc] at h
    have hmem : deed ∈ before :=
      List.append_inj_left' h rfl ▸ List.mem_append_right done List.mem_cons_self
    exact absurd (hfree deed hmem) (by simp [hdeed])

/-- Deeds of which none is a refusal have no refusals. -/
theorem countP_isRefusal_eq_zero {deeds : List Deed}
    (h : ∀ deed ∈ deeds, deed.isRefusal = false) : deeds.countP Deed.isRefusal = 0 :=
  List.countP_eq_zero.mpr (by simpa using h)

/-- The budget refuses no more than one combo in a turn, because it ends with that. -/
theorem Spent.countP_isRefusal_le {steps names before left : Nat} {deeds : List Deed} {t' : Turn}
    (h : Spent steps names before left deeds t') : deeds.countP Deed.isRefusal ≤ 1 := by
  obtain ⟨hfree, -⟩ | ⟨done, last, rfl, hfree, -⟩ := h.refused
  · rw [countP_isRefusal_eq_zero hfree]
    exact Nat.zero_le 1
  · rw [List.countP_append, countP_isRefusal_eq_zero hfree, Nat.zero_add]
    exact List.countP_le_length

/-- What is spent of the whole budget keeps to it. -/
theorem Spent.withinBudget {rules : Rules} {p : Program} {turn : TakenTurn} {acted : List Deed}
    {steps names : Nat} {t' : Turn}
    (h : Spent steps names 0 rules.maxCombosPerTurn.toNat acted t')
    (hdeeds : turn.deeds = startDeeds rules turn.round ++ acted)
    (hbound : 1 + names + rules.maxCombosPerTurn.toNat * steps = turnBound rules p turn.actor) :
    WithinBudget rules p turn := by
  have hentered := h.entered
  have hlength := h.length
  obtain ⟨hone, hstart, hnone⟩ := startDeeds_plain rules turn.round
  refine ⟨?_, ?_, fun done deed later hsplit hdeed => ?_, ?_⟩
  · rw [hdeeds, List.countP_append, hnone]
    omega
  · rw [hdeeds, List.countP_append, countP_isRefusal_eq_zero hstart, Nat.zero_add]
    exact h.countP_isRefusal_le
  · rw [hdeeds] at hsplit
    obtain ⟨hfree, -⟩ | ⟨before, last, rfl, hfree, hlast, hleft, -⟩ := h.refused
    · have hmem : deed ∈ startDeeds rules turn.round ++ acted :=
        hsplit ▸ List.mem_append_right done List.mem_cons_self
      exact absurd (List.forall_mem_append.mpr ⟨hstart, hfree⟩ deed hmem) (by simp [hdeed])
    · rw [← List.append_assoc] at hsplit
      obtain ⟨rfl, rfl⟩ := eq_of_refusal (List.forall_mem_append.mpr ⟨hstart, hfree⟩) hsplit hdeed
      -- the deeds before the refusal have taken the whole budget
      have hno : Deed.isEntry last = false := by simp [Deed.isEntry, hlast]
      rw [List.countP_append, List.countP_singleton, hno, hleft] at hentered
      rw [List.countP_append, hnone]
      exact ⟨rfl, by simpa using hentered⟩
  · rw [hdeeds, List.length_append]
    omega

/-- A bound on the turns of each side bounds all turns of the schedule together. -/
theorem sum_schedule (bound : Side → Nat) (round left : Nat) :
    ((schedule round left).map fun slot => bound slot.side).sum
      = left * (bound .starter + bound .other) := by
  induction left generalizing round with
  | zero => rw [Nat.zero_mul]; rfl
  | succ left ih =>
    simp only [schedule, List.map_cons, List.sum_cons, ih, Nat.succ_mul]
    omega

/-- The turns of a program are bounded by those of all its rounds. -/
theorem sum_le_of_prefix_turnOrder {p : Program} {turns : List TakenTurn} (bound : String → Nat)
    (h : turns.map TakenTurn.place <+: turnOrder p) :
    (turns.map fun turn => bound turn.actor).sum
      ≤ p.matchup.maxTurns.toNat * (bound p.matchup.starter + bound p.matchup.second) := by
  have hsublist : (turns.map fun turn => bound turn.actor).Sublist
      ((schedule 0 p.matchup.maxTurns.toNat).map fun slot =>
        bound (p.matchup.combatant slot.side)) := by
    have hplaces := (h.map fun place => bound place.2).sublist
    rw [List.map_map, turnOrder, List.map_map] at hplaces
    exact hplaces.trans (List.filter_sublist.map _)
  refine (hsublist.sum_le_sum fun _ _ => Nat.zero_le _).trans_eq ?_
  exact sum_schedule (fun side => bound (p.matchup.combatant side)) 0 p.matchup.maxTurns.toNat

/-- A turn of a bout keeps to the budget. -/
theorem Bout.Stages.withinBudget {b : Bout} {rules : Rules} {p : Program} (h : b.Stages rules p)
    (hkeys : p.fighters.Keyed Fighter.name) {slot : Slot} (hsteps : HasSteps (b.fighter slot.side))
    {turn : TakenTurn} {s : Standing} (hturn : b.turn? slot s = some turn) :
    WithinBudget rules p turn := by
  obtain rfl := h.rules
  obtain ⟨block, hscript, rfl⟩ := Option.map_eq_some_iff.mp hturn
  have hspent := Move.spends_follow hsteps b.rules.comboDepth.toNat block
    (t := b.turnStart slot s) rfl rfl
  refine hspent.withinBudget ?_ ?_
  · rw [Bout.turnEnd_of_script hscript]
  · rw [h.script] at hscript
    obtain ⟨script, hdeclared, rfl⟩ := Option.map_eq_some_iff.mp hscript
    simp only [turnBound, h.name_eq hkeys, hdeclared, h.fighter, Option.elim_some]

/-- Every turn of a program that is read keeps to the budget of the rules, however the combos refer
to each other, and so its fight has no more records than the turns of all its rounds may have, and
the end. -/
theorem turns_within_budget (rules : Rules) (source : String) (p : Program)
    (h : Program.parse source = .ok p) :
    ∃ finished turns, run rules p = .ok finished ∧ InTurns rules p finished turns ∧
      (∀ turn ∈ turns, WithinBudget rules p turn) ∧
      finished.log.size ≤ 1 + p.matchup.maxTurns.toNat *
        (turnBound rules p p.matchup.fighterA + turnBound rules p p.matchup.fighterB) := by
  obtain ⟨finished, hrun, b, hstages, hfair, hfought, hsteps⟩ := exists_fought_of_parse rules h
  have hprintable := Program.printable_of_parse h
  have hturns := hfought.inTurns hstages hfair hprintable.keys hsteps
  have hwithin : ∀ turn ∈ (b.play (schedule 0 p.matchup.maxTurns.toNat) (opening p)).turns,
      WithinBudget rules p turn := by
    intro turn hmem
    obtain ⟨earlier, later, hsplit⟩ := List.append_of_mem hmem
    obtain ⟨slot, -, hturn⟩ := Bout.exists_turn?_of_play hsplit
    exact hstages.withinBudget hprintable.keys (hsteps slot.side) hturn
  refine ⟨finished, _, hrun, hturns, hwithin, ?_⟩
  have hsize : finished.log.size
      = ((b.play (schedule 0 p.matchup.maxTurns.toNat) (opening p)).turns.map
        fun turn => turn.deeds.length).sum + 1 := by
    rw [Log.size, ← Array.length_toList, hturns.log, List.length_append, List.length_flatMap]
    simp [TakenTurn.entries, TakenTurn.events]
  have hcombatants : turnBound rules p p.matchup.starter + turnBound rules p p.matchup.second
      = turnBound rules p p.matchup.fighterA + turnBound rules p p.matchup.fighterB := by
    obtain ⟨hstarter, hsecond⟩ | ⟨hstarter, hsecond⟩ := hprintable.sound.combatants_eq
    · rw [hstarter, hsecond]
    · rw [hstarter, hsecond, Nat.add_comm]
  have hdeeds := List.sum_le_sum fun turn hturn => (hwithin turn hturn).length
  have hbound := sum_le_of_prefix_turnOrder (turnBound rules p) hturns.order
  rw [hcombatants] at hbound
  omega

/-- The turns of the fight that the text of two fighters makes. -/
theorem turns_within_budget_duel :
    ∃ p, Program.parse (Program.duel.render 2) = .ok p ∧
      ∃ finished turns, run {} p = .ok finished ∧ InTurns {} p finished turns ∧
        (∀ turn ∈ turns, WithinBudget {} p turn) ∧
        finished.log.size ≤ 1 + p.matchup.maxTurns.toNat *
          (turnBound {} p p.matchup.fighterA + turnBound {} p p.matchup.fighterB) := by
  have hprintable : Program.duel.Printable := by decide +kernel
  obtain ⟨p, hp, -⟩ := hprintable.exists_parse_render 2
  exact ⟨p, hp, turns_within_budget {} (Program.duel.render 2) p hp⟩

end Combat

end Lucha
