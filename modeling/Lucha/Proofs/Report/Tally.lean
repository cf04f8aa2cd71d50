import Lucha.Proofs.Combat.Spending
import Lucha.Proofs.Program.Printable
import Lucha.Report.Tally

/-!
# Tallies and results

What a tally says about a fighter is added up event by event (`Tally.totals_ofEvents`). A total is
the sum of what the events say, cut off at the largest quantity (`Totals.toNat_total_foldl_after`),
and a count is the number of deeds of a type, as far as quantities count
(`Totals.toNat_times_foldl_after`). In a fight nothing is cut off, because nobody loses more than it
has (`exact_of_fought`), and so the tally of the log agrees with the result
(`tally_agrees_with_result`).
-/

namespace Lucha.Report

open Combat

/-- What is summed up for a fighter. -/
inductive Amount where
  | damageDealt | damageTaken | staminaSpent

/-- What an event adds to a sum of a fighter. -/
def Amount.of (name : String) : Amount → Event → Nat
  | damageDealt => Event.damageBy name
  | damageTaken => Event.damageTo name
  | staminaSpent => Event.staminaBy name

namespace Totals

/-- A sum of a fighter. -/
def total (t : Totals) : Amount → Quantity
  | .damageDealt => t.damageDealt
  | .damageTaken => t.damageTaken
  | .staminaSpent => t.staminaSpent

/-- The totals of a fighter after one more event. -/
def after (name : String) (t : Totals) : Event → Totals
  | .deed actor deed =>
    let t := if actor = name then t.add deed else t
    match deed with
    | .applyAction target _ _ damage _ _ _ => if target = name then t.suffer damage else t
    | _ => t
  | .combatEnd .. => t

/-- How often a fighter did deeds of a type. -/
def times (t : Totals) : EventType → Quantity
  | .turnStart => t.turns
  | .actionApplied => t.actionsLanded
  | .actionFailed => t.actionsFailed
  | .comboExecuted => t.combosExecuted
  | .comboFallback => t.comboFallbacks
  | .blockUsed => t.blocks
  | .unknownAction => t.unknownActions
  | .comboAborted => t.combosAborted
  | .combatEnd => 0

variable (t : Totals) (event : Event) (name : String)

/-- A sum grows by what an event adds to it, as far as there are quantities. -/
theorem toNat_total_after (amount : Amount) : ((t.after name event).total amount).toNat
    = min ((t.total amount).toNat + amount.of name event) Quantity.largest.toNat := by
  have hle := Quantity.toNat_le_largest (t.total amount)
  cases event with
  | combatEnd => cases amount <;> exact (Nat.min_eq_left hle).symm
  | deed actor deed =>
    -- all deeds but landed actions and paid combos add nothing and change no sum
    cases amount <;> cases deed <;>
      simp only [after, Amount.of, Event.damageBy, Event.damageTo, Event.staminaBy] <;>
      split_ifs <;> simp_all [total, add, suffer, Quantity.toNat_put]

theorem times_add (deed : Deed) (type : EventType) :
    (t.add deed).times type = t.times type + if deed.type = type then 1 else 0 := by
  cases deed <;> cases type <;> simp [add, times, Deed.type]

theorem times_suffer (damage : Quantity) (type : EventType) :
    (t.suffer damage).times type = t.times type := by
  cases type <;> rfl

/-- A count grows by one with each deed of its type that the fighter does. -/
theorem times_after (type : EventType) : (t.after name event).times type
    = t.times type + if event.actor? = some name ∧ event.type = type then 1 else 0 := by
  cases event with
  | combatEnd => simp [after, Event.actor?]
  | deed actor deed =>
    have hadd : (if actor = name then t.add deed else t).times type
        = t.times type + if actor = name ∧ deed.type = type then 1 else 0 := by
      by_cases hactor : actor = name
      · simp [hactor, times_add]
      · simp [hactor]
    simp only [Event.actor?, Event.type, Option.some.injEq, ← hadd, after]
    cases deed with
    | applyAction target =>
      dsimp only
      split
      · exact times_suffer _ _ type
      · rfl
    | _ => rfl

/-! ### Some events -/

variable {t name}

/-- A sum is that of what the events add, as far as there are quantities. -/
theorem toNat_total_foldl_after (amount : Amount) (events : List Event) :
    ((events.foldl (after name) t).total amount).toNat
      = min ((t.total amount).toNat + (events.map (amount.of name)).sum)
          Quantity.largest.toNat := by
  induction events generalizing t with
  | nil => exact (Nat.min_eq_left (Quantity.toNat_le_largest _)).symm
  | cons event events ih =>
    rw [List.foldl_cons, ih, toNat_total_after, List.map_cons, List.sum_cons]
    omega

/-- A count is the number of such deeds, and starts anew behind the largest quantity. -/
theorem toNat_times_foldl_after (type : EventType) (events : List Event) :
    ((events.foldl (after name) t).times type).toNat
      = ((t.times type).toNat
          + events.countP fun event => event.actor? = some name ∧ event.type = type) % 2 ^ 32 := by
  induction events generalizing t with
  | nil => exact (Nat.mod_eq_of_lt (t.times type).toNat_lt).symm
  | cons event events ih =>
    rw [List.foldl_cons, ih, times_after, UInt32.toNat_add, List.countP_cons]
    simp only [decide_eq_true_eq]
    split_ifs
    · rw [UInt32.toNat_one]
      omega
    · rw [UInt32.toNat_zero]
      omega

end Totals

namespace Tally

/-- The totals of a fighter, which are nothing for one that no event names. -/
def totals (tally : Tally) (name : String) : Totals :=
  (tally.find? name).getD {}

/-- Changing the totals of one fighter leaves those of the others. -/
theorem totals_adjust (tally : Tally) (name other : String) (change : Totals → Totals) :
    totals (tally.adjust other {} change) name
      = if other = name then change (tally.totals name) else tally.totals name := by
  rw [totals, Table.adjust, Table.find?_insert]
  by_cases h : other = name
  · rw [if_pos h, if_pos h.symm, h]
    rfl
  · rw [if_neg h, if_neg (Ne.symm h)]
    rfl

/-- An event changes the totals of each fighter in its own way. -/
theorem totals_add (tally : Tally) (event : Event) (name : String) :
    (tally.add event).totals name = (tally.totals name).after name event := by
  cases event with
  | combatEnd => rfl
  | deed actor deed =>
    cases deed with
    | applyAction => simp only [add, Totals.after, totals_adjust]
    | _ => exact totals_adjust ..

/-- What a tally says about a fighter is added up event by event. -/
theorem totals_ofEvents (events : List Event) (name : String) :
    (ofEvents events).totals name = events.foldl (Totals.after name) {} :=
  (List.foldl_hom (totals · name) fun tally event => (totals_add tally event name).symm).symm

/-- A count of a tally is that of the records, unless there are too many to count. -/
theorem toNat_times_ofLog {log : Log} (hsize : log.size < 2 ^ 32) (name : String)
    (type : EventType) : (((ofLog log).totals name).times type).toNat
      = log.records.countP fun r => r.event.actor? = some name ∧ r.event.type = type := by
  have hstart : (({} : Totals).times type).toNat = 0 := by cases type <;> rfl
  have hlength : log.records.length = log.size := by
    rw [← List.length_map (f := Record.id), log.map_id_records, List.length_range]
  have hle := List.countP_le_length (l := log.records)
    (p := fun r => r.event.actor? = some name ∧ r.event.type = type)
  rw [ofLog, totals_ofEvents, Totals.toNat_times_foldl_after, hstart, Nat.zero_add,
    ← log.map_event_records, List.countP_map]
  exact Nat.mod_eq_of_lt (hle.trans_lt (hlength ▸ hsize))

/-- An event brings in the fighters that take part in it. -/
theorem contains_add {tally : Tally} {event : Event} {name : String} :
    (tally.add event).contains name = true ↔
      name ∈ event.participants ∨ tally.contains name = true := by
  cases event with
  | combatEnd => simp [add, Event.participants]
  | deed actor deed =>
    cases deed <;>
      simp only [add, Table.contains_adjust, Event.participants, List.mem_cons, List.not_mem_nil,
        or_false]
    tauto

/-- A tally names the fighters that the events are about, and no others. -/
theorem contains_ofEvents_iff {events : List Event} {name : String} :
    (ofEvents events).contains name = true ↔ ∃ event ∈ events, name ∈ event.participants := by
  have hfold (tally : Tally) : (events.foldl add tally).contains name = true ↔
      (∃ event ∈ events, name ∈ event.participants) ∨ tally.contains name = true := by
    induction events generalizing tally with
    | nil => simp
    | cons event events ih =>
      rw [List.foldl_cons, ih, contains_add, List.exists_mem_cons_iff]
      exact or_left_comm.trans or_assoc.symm
  rw [ofEvents, hfold]
  simp [Table.contains]

end Tally

/-! ### The tally of a fight -/

/-- The sums of a fighter are those of what some events say, and nothing is cut off. -/
def Totals.Exact (t : Totals) (name : String) (events : List Event) : Prop :=
  ∀ amount, (t.total amount).toNat = (events.map (Amount.of name amount)).sum

/-- Nothing is cut off in the tally of what a log begins with, if there are quantities for the sums
of the whole log. -/
theorem Tally.exact_of_prefix {events earlier : List Event} (hbegins : earlier <+: events)
    {name : String}
    (h : ∀ amount, (events.map (Amount.of name amount)).sum ≤ Quantity.largest.toNat) :
    ((ofEvents earlier).totals name).Exact name earlier := by
  intro amount
  have hstart : (({} : Totals).total amount).toNat = 0 := by cases amount <;> rfl
  have hle := h amount
  obtain ⟨later, rfl⟩ := hbegins
  rw [List.map_append, List.sum_append] at hle
  rw [totals_ofEvents, Totals.toNat_total_foldl_after, hstart]
  omega

/-- The tally of the fight of two contenders is exact at every moment of it. -/
theorem exact_of_fought {b : Bout} {p : Program} {finished : Finished}
    (hfought : b.Fought p finished) (hdistinct : b.Distinct) {earlier : List Event}
    (hbegins : earlier <+: finished.log.events) (side : Side) :
    ((Tally.ofEvents earlier).totals (b.fighter side).name).Exact (b.fighter side).name
      earlier := by
  have hlost (name : String) := Nat.le.intro (hfought.sum_damageTo_add_hp hdistinct name)
  have hpaid (name : String) := Nat.le.intro (hfought.sum_staminaBy_add_stamina hdistinct name)
  refine Tally.exact_of_prefix hbegins fun amount => ?_
  -- the sums are bounded by what there was at the start of the fight, which is a quantity
  cases amount with
  | damageDealt =>
    rw [Amount.of, hfought.sum_damageBy_eq hdistinct side]
    exact (hlost _).trans (Quantity.toNat_le_largest _)
  | damageTaken => exact (hlost _).trans (Quantity.toNat_le_largest _)
  | staminaSpent => exact (hpaid _).trans (Quantity.toNat_le_largest _)

/-- What one contender dealt is what the other one took. -/
theorem damageDealt_eq_of_fought {b : Bout} {p : Program} {finished : Finished}
    (hfought : b.Fought p finished) (hdistinct : b.Distinct) (side : Side) :
    ((Tally.ofLog finished.log).totals (b.fighter side).name).damageDealt
      = ((Tally.ofLog finished.log).totals (b.fighter side.opposite).name).damageTaken := by
  have hexact := exact_of_fought hfought hdistinct List.prefix_rfl
  apply UInt32.toNat_inj.mp
  exact (hexact side .damageDealt).trans
    ((hfought.sum_damageBy_eq hdistinct side).trans (hexact side.opposite .damageTaken).symm)

/-- A contender took the damage and spent the stamina that it has lost at the end of the fight. -/
theorem lost_of_fought {b : Bout} {p : Program} {finished : Finished}
    (hfought : b.Fought p finished) (hdistinct : b.Distinct)
    (hkeys : p.fighters.Keyed Fighter.name) {side : Side} {s : Snapshot}
    (hs : Tells p ((opening p).replay finished.log.events) (b.fighter side).name s) :
    let t := (Tally.ofLog finished.log).totals s.name
    t.damageTaken.toNat + s.hp.toNat = s.hpMax.toNat ∧
      t.staminaSpent.toNat + s.stamina.toNat = s.staminaMax.toNat := by
  obtain rfl := hs.eq hkeys
  have hexact := exact_of_fought hfought hdistinct List.prefix_rfl side
  constructor
  · exact (congrArg (· + _) (hexact .damageTaken)).trans (hfought.sum_damageTo_add_hp hdistinct _)
  · exact (congrArg (· + _) (hexact .staminaSpent)).trans
      (hfought.sum_staminaBy_add_stamina hdistinct _)

/-- The tally of the log of a fight agrees with the result: each combatant took the damage that it
has lost and spent the stamina that it has lost, and dealt what the other one took. The tally names
nobody else, nothing in it is ever cut off, and unless there are too many records its counts are
those of the records. -/
theorem tally_agrees_with_result (rules : Rules) (p : Program) (finished : Finished)
    (hkeys : p.fighters.Keyed Fighter.name) (h : run rules p = .ok finished) :
    let log := finished.log
    let a := finished.result.fighterA
    let b := finished.result.fighterB
    let tally := Tally.ofLog log
    a.name = p.matchup.fighterA ∧ b.name = p.matchup.fighterB ∧
      (∀ s ∈ [a, b],
        (tally.totals s.name).damageTaken.toNat + s.hp.toNat = s.hpMax.toNat ∧
          (tally.totals s.name).staminaSpent.toNat + s.stamina.toNat = s.staminaMax.toNat ∧
          ∀ earlier, earlier <+: log.events →
            ((Tally.ofEvents earlier).totals s.name).Exact s.name earlier) ∧
      (tally.totals a.name).damageDealt = (tally.totals b.name).damageTaken ∧
      (tally.totals b.name).damageDealt = (tally.totals a.name).damageTaken ∧
      (∀ name, tally.contains name = true → name = a.name ∨ name = b.name) ∧
      (log.size < 2 ^ 32 → ∀ name type, ((tally.totals name).times type).toNat
        = log.records.countP fun r => r.event.actor? = some name ∧ r.event.type = type) := by
  intro log a b tally
  obtain ⟨bout, hstages, hdistinct, hfought⟩ := exists_fought hkeys h
  obtain ⟨side, hA, hB⟩ := hstages.exists_side hkeys (run_eq_ok_iff.mp h).1
  have ha : Tells p ((opening p).replay log.events) (bout.fighter side).name a := by
    rw [← hA, hfought.replay_events]
    exact hfought.fighterA
  have hb : Tells p ((opening p).replay log.events) (bout.fighter side.opposite).name b := by
    rw [← hB, hfought.replay_events]
    exact hfought.fighterB
  have hname {side : Side} {s : Snapshot}
      (hs : Tells p ((opening p).replay log.events) (bout.fighter side).name s) :
      s.name = (bout.fighter side).name :=
    congrArg Snapshot.name (hs.eq hkeys)
  refine ⟨(hname ha).trans hA.symm, (hname hb).trans hB.symm, fun s hs => ?_, ?_, ?_,
    fun name hnamed => ?_, fun hsize name type => ?_⟩
  · obtain ⟨side', hs'⟩ : ∃ side', Tells p ((opening p).replay log.events)
        (bout.fighter side').name s := by
      obtain rfl | hs := List.mem_cons.mp hs
      · exact ⟨side, ha⟩
      · exact ⟨side.opposite, List.mem_singleton.mp hs ▸ hb⟩
    obtain ⟨htaken, hspent⟩ := lost_of_fought hfought hdistinct hkeys hs'
    refine ⟨htaken, hspent, fun earlier hbegins => ?_⟩
    rw [hname hs']
    exact exact_of_fought hfought hdistinct hbegins side'
  · rw [hname ha, hname hb]
    exact damageDealt_eq_of_fought hfought hdistinct side
  · have hdealt := damageDealt_eq_of_fought hfought hdistinct side.opposite
    rw [Side.opposite_opposite] at hdealt
    rw [hname ha, hname hb]
    exact hdealt
  · obtain ⟨event, hevent, hparticipant⟩ := Tally.contains_ofEvents_iff.mp hnamed
    obtain ⟨side', rfl⟩ := hfought.name_of_mem_participants hdistinct hevent hparticipant
    rw [hname ha, hname hb]
    obtain rfl | rfl := side'.eq_or_eq_opposite side
    · exact .inl rfl
    · exact .inr rfl
  · exact Tally.toNat_times_ofLog hsize name type

/-- The totals of the duel, whose log is short enough for every count. -/
theorem tally_agrees_with_result_duel :
    let finished := fight {} .duel .beto .ana
    let log := finished.log
    let a := finished.result.fighterA
    let b := finished.result.fighterB
    let tally := Tally.ofLog log
    Program.duel.fighters.Keyed Fighter.name ∧ run {} .duel = .ok finished ∧
      log.size < 2 ^ 32 ∧ a.name = "Ana" ∧ b.name = "Beto" ∧
      (∀ s ∈ [a, b],
        (tally.totals s.name).damageTaken.toNat + s.hp.toNat = s.hpMax.toNat ∧
          (tally.totals s.name).staminaSpent.toNat + s.stamina.toNat = s.staminaMax.toNat ∧
          ∀ earlier, earlier <+: log.events →
            ((Tally.ofEvents earlier).totals s.name).Exact s.name earlier) ∧
      (tally.totals a.name).damageDealt = (tally.totals b.name).damageTaken ∧
      (tally.totals b.name).damageDealt = (tally.totals a.name).damageTaken ∧
      (∀ name, tally.contains name = true → name = a.name ∨ name = b.name) ∧
      (log.size < 2 ^ 32 → ∀ name type, ((tally.totals name).times type).toNat
        = log.records.countP fun r => r.event.actor? = some name ∧ r.event.type = type) :=
  ⟨by decide, rfl, by decide +kernel, tally_agrees_with_result {} .duel _ (by decide) rfl⟩

end Lucha.Report
