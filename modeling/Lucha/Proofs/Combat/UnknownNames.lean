import Lucha.Proofs.Combat.Fight
import Lucha.Proofs.Combat.Log
import Lucha.Proofs.Program.Printable
import Lucha.Proofs.Program.Warning

/-!
# Names that are looked for in vain

A fight comes to a name in two ways: the script uses it, or it is a step of a combo. So where some
names include every unknown name in the script and every unknown step of a combo, nothing else is
looked for in vain (`Move.misses_follow`). The names that there are warnings about are such names,
so no name fails without a warning (`unknown_names_warned`).
-/

namespace Lucha

/-- A program where one fighter uses a name that is misspelt. -/
def Program.misspelt : Program :=
  { Program.duel with scripts := [⟨"Ana", .use "gaurdia" .none .done, .none⟩] }

namespace Combat

namespace Move

/-- In a turn of the fighter no other names are looked for in vain, and the turn stays the
fighter's. -/
def Misses (f : Fighter) (names : String → Prop) (m : Move) : Prop :=
  ∀ ⦃t : Turn⦄, t.actor.fighter = f →
    (m t).2.actor.fighter = f ∧ ∀ ⦃name⦄, .failName name ∈ (m t).1 → names name

variable {f : Fighter} {names : String → Prop} {m m' : Move}

theorem misses_rest : rest.Misses f names := fun _ ht => ⟨ht, fun _ hmem => nomatch hmem⟩

/-- A deed that fails for one of the names at most. -/
theorem misses_only {deed : Deed} (h : ∀ name, deed = .failName name → names name) :
    (only deed).Misses f names :=
  fun _ ht => ⟨ht, fun name hmem => h name (List.mem_singleton.mp hmem).symm⟩

/-- Two moves in a row look for no names in vain but those that one of them does. -/
theorem Misses.andThen (h : m.Misses f names) (h' : m'.Misses f names) :
    (m.andThen m').Misses f names := by
  intro t ht
  obtain ⟨hfirst, hnames⟩ := h ht
  obtain ⟨hsecond, hnames'⟩ := h' hfirst
  exact ⟨hsecond, fun _ hmem => (List.mem_append.mp hmem).elim (hnames ·) (hnames' ·)⟩

/-- Moves in a row look for no names in vain but those that one of them does. -/
theorem Misses.all {moves : List Move} (h : ∀ m ∈ moves, m.Misses f names) :
    (all moves).Misses f names :=
  all_induction misses_rest Misses.andThen h

theorem misses_act (a : Action) : (act a).Misses f names := by
  intro t ht
  rw [act]
  split
  · exact ⟨ht, by simp⟩
  · split
    · exact ⟨ht, by simp⟩
    · rename_i actor hpay
      exact ⟨(fighter_of_pay? hpay).trans ht, by simp⟩

/-- Entering a combo looks for no name. -/
theorem Misses.enter (h : m.Misses f names) (c : Combo) : (enter c m).Misses f names := by
  intro t ht
  rw [Move.enter]
  split
  · exact ⟨ht, by simp⟩
  · rename_i left hleft
    have hfighter : ({ t with combosLeft := left } : Turn).actor.fighter = f := ht
    exact h hfighter

/-- What a combo looks for in vain is among its steps or comes of its fallback. -/
theorem misses_perform (c : Combo) (chain : List String) {step : List String → String → Move}
    (h : ∀ chain, ∀ name ∈ c.steps, (step chain name).Misses f names) :
    (perform c chain step).Misses f names := by
  intro t ht
  rw [perform]
  split
  · rename_i actor hpay
    have hsteps : (Move.all (c.steps.map (step []))).Misses f names :=
      .all (List.forall_mem_map.mpr (h []))
    have hfighter : ({ t with actor } : Turn).actor.fighter = f := (fighter_of_pay? hpay).trans ht
    exact ((misses_only (by simp)).andThen hsteps) hfighter
  · split
    · exact misses_only (by simp) ht
    · split
      · exact misses_rest ht
      · rename_i first hfirst
        exact ((misses_only (by simp)).andThen (h _ first (List.mem_of_head? hfirst))) ht

/-- Using a name: it is looked for in vain only if it is unknown. -/
theorem Misses.named {name : String} (hname : f.knows name = false → names name)
    {ofCombo : Combo → Move}
    (h : ∀ c, f.combos.find? name = some c → (ofCombo c).Misses f names) :
    (named name ofCombo).Misses f names := by
  intro t ht
  rw [Move.named, ht]
  split
  · exact misses_rest ht
  · cases hc : f.combos.find? name with
    | some c => exact h c hc ht
    | none =>
      cases ha : f.actions.find? name with
      | some a => exact misses_act a ht
      | none =>
        have hunknown : f.knows name = false := by
          rw [Fighter.knows, Table.contains, Table.contains, hc, ha]
          rfl
        refine misses_only (fun missing heq => ?_) ht
        cases heq
        exact hname hunknown

theorem Misses.branch (h : m.Misses f names) (h' : m'.Misses f names) (condition : Condition) :
    (branch condition m m').Misses f names := by
  intro t ht
  rw [Move.branch]
  split
  · exact h ht
  · exact h' ht

section

variable (hsteps : ∀ ⦃key c⦄, f.combos.find? key = some c →
  ∀ step ∈ c.steps, f.knows step = false → names step)
include hsteps

/-- Resolving a name looks for nothing in vain but that name and steps of combos, by induction on
the levels that are left. -/
theorem misses_resolve (levels : Nat) (chain : List String) {name : String}
    (hname : f.knows name = false → names name) : (resolve levels chain name).Misses f names := by
  induction levels generalizing chain name with
  | zero => exact .named hname fun c _ => .enter (misses_only (by simp)) c
  | succ levels ih =>
    exact .named hname fun c hc => .enter (misses_perform c chain fun chain step hstep =>
      ih chain (hsteps hc step hstep)) c

/-- Following a script looks for nothing in vain but names that it uses and steps of combos. -/
theorem misses_follow (levels : Nat) {b : Block}
    (huses : ∀ use ∈ b.uses, f.knows use.1 = false → names use.1) :
    (follow levels b).Misses f names := by
  induction b with
  | done => exact misses_rest
  | use name span next ih =>
    obtain ⟨hname, hnext⟩ := List.forall_mem_cons.mp huses
    exact (misses_resolve hsteps levels [] hname).andThen (ih hnext)
  | choose condition yes no next hyes hno hnext =>
    rw [Block.uses, List.forall_mem_append, List.forall_mem_append] at huses
    obtain ⟨huses, huses', huses''⟩ := huses
    exact ((hyes huses).branch (hno huses') condition).andThen (hnext huses'')

end

end Move

/-! ### Turns and fights -/

/-- An event of this type says that a fighter looks for a name in vain. -/
theorem Event.exists_failName {event : Event} (h : event.type = .unknownAction) :
    ∃ actor name, event = .deed actor (.failName name) := by
  cases event with
  | combatEnd => cases h
  | deed actor deed =>
    cases deed with
    | failName name => exact ⟨actor, name, rfl⟩
    | _ => cases h

/-- The names that are looked for in vain in a turn are among some, if every unknown step of a combo
and every unknown name in the script is. -/
theorem Bout.names_of_turn? {b : Bout} {slot : Slot} {s : Standing} {turn : TakenTurn}
    (hturn : b.turn? slot s = some turn) (names : String → Prop)
    (hsteps : ∀ ⦃key c⦄, (b.fighter slot.side).combos.find? key = some c →
      ∀ step ∈ c.steps, (b.fighter slot.side).knows step = false → names step)
    (huses : ∀ block, b.script slot.side = some block →
      ∀ use ∈ block.uses, (b.fighter slot.side).knows use.1 = false → names use.1)
    {name : String} (hmem : .failName name ∈ turn.deeds) : names name := by
  obtain ⟨block, hscript, rfl⟩ := Option.map_eq_some_iff.mp hturn
  have hstart : .failName name ∉ startDeeds b.rules slot.round := by
    rw [startDeeds]
    split <;> simp
  simp only [turnEnd_of_script hscript, List.mem_append, hstart, false_or] at hmem
  have hfighter : (b.turnStart slot s).actor.fighter = b.fighter slot.side := rfl
  exact (Move.misses_follow hsteps _ (huses block hscript) hfighter).2 hmem

/-- No name fails in a fight without a warning: the name is used in the script that the fighter
follows, or it is a step of one of its combos, and there is a warning about that. So in the fight of
a program without such warnings no fighter comes to a name that it does not know. -/
theorem unknown_names_warned (rules : Rules) (p : Program) (finished : Finished) (hkeyed : p.Keyed)
    (h : run rules p = .ok finished) :
    (∀ r ∈ finished.log.records, ∀ actor name, r.event = .deed actor (.failName name) →
      p.WarnsOfUnknown actor name) ∧
    ((∀ fighter name, ¬ p.WarnsOfUnknown fighter name) →
      finished.log.ofType .unknownAction = []) := by
  have hwarned : ∀ r ∈ finished.log.records, ∀ actor name, r.event = .deed actor (.failName name) →
      p.WarnsOfUnknown actor name := by
    obtain ⟨b, hstages, -, hfought⟩ := exists_fought hkeyed.fighters h
    have hsound := (run_eq_ok_iff.mp h).1
    intro r hr actor name heq
    have hmem : r.event ∈ finished.log.events := by
      rw [← finished.log.map_event_records]
      exact List.mem_map_of_mem hr
    obtain ⟨earlier, later, hsplit⟩ := List.append_of_mem (heq ▸ hmem)
    obtain ⟨slot, s, turn, done, todo, hturn, hactor, hdeeds, -⟩ := hfought.exists_turn? hsplit
    have hdeed : .failName name ∈ turn.deeds := hdeeds ▸ List.mem_append_cons_self
    have hside := hstages.fighter slot.side
    rw [← hactor, (Bout.of_turn? hturn).2]
    refine Bout.names_of_turn? hturn (p.WarnsOfUnknown _) ?_ ?_ hdeed
    · intro key c hc step hstep hunknown
      exact .inr ⟨_, _, Program.unknownComboStep_mem_warnings hside hc hstep hunknown⟩
    · intro block hblock use huse hunknown
      rw [hstages.script] at hblock
      obtain ⟨script, hscript, rfl⟩ := Option.map_eq_some_iff.mp hblock
      exact .inl ⟨_, Program.unknownAction_mem_warnings hside (hsound.combatant_mem slot.side)
        hscript huse hunknown⟩
  refine ⟨hwarned, fun hnone => List.filter_eq_nil_iff.mpr fun r hr htype => ?_⟩
  obtain ⟨actor, name, heq⟩ := Event.exists_failName (of_decide_eq_true htype)
  exact hnone actor name (hwarned r hr actor name heq)

/-- Ana's misspelt name fails in the fight, and there is a warning about it. -/
theorem unknown_names_warned_misspelt :
    let finished := fight {} .misspelt .beto .ana
    Program.misspelt.Keyed ∧ run {} .misspelt = .ok finished ∧
      finished.log.ofType .unknownAction ≠ [] ∧
      (∀ r ∈ finished.log.records, ∀ actor name, r.event = .deed actor (.failName name) →
        Program.misspelt.WarnsOfUnknown actor name) ∧
      ((∀ fighter name, ¬ Program.misspelt.WarnsOfUnknown fighter name) →
        finished.log.ofType .unknownAction = []) :=
  ⟨by decide, rfl, by decide +kernel, unknown_names_warned {} .misspelt _ (by decide) rfl⟩

end Combat

end Lucha
