import Lucha.Proofs.Combat.Succession
import Lucha.Proofs.Program.Printable

/-!
# Longer fights

More rounds to fight only extend a fight (`longer_fight_extends`): its log goes on where that of the
shorter fight has the end, and after a knockout there is nothing to go on with. For that the rounds
of the shorter fight are the first ones of the longer, and the number of a round tells them from the
later ones.
-/

namespace Lucha.Combat

/-- Only deeds are done in a round. -/
theorem type_ne_combatEnd_of_mem_playRound {rules : Rules} {scripts : Scripts} {round : Nat}
    {pair : Pair} {event : Event} (h : event ∈ (playRound rules scripts round pair).events) :
    event.type ≠ .combatEnd := by
  have hdeeds {actor : String} {deeds : List Deed} (h : event ∈ deeds.map (.deed actor)) :
      event.type ≠ .combatEnd := by
    obtain ⟨deed, -, rfl⟩ := List.mem_map.mp h
    cases deed <;> simp [Event.type, Deed.type]
  rw [playRound] at h
  split at h
  · exact hdeeds h
  · exact (List.mem_append.mp h).elim hdeeds hdeeds

/-- What is recorded of some rounds is an event of one of them. -/
theorem exists_of_mem_entries {rounds : List PlayedRound} {entry : Entry}
    (h : entry ∈ rounds.flatMap PlayedRound.entries) :
    ∃ r ∈ rounds, entry.round = r.number ∧ entry.event ∈ r.came.events := by
  obtain ⟨r, hr, hentry⟩ := List.mem_flatMap.mp h
  obtain ⟨event, hevent, rfl⟩ := List.mem_map.mp hentry
  exact ⟨r, hr, rfl, hevent⟩

/-- The end of a fight is no part of its rounds. -/
theorem PlayedOut.type_ne_combatEnd {rules : Rules} {p : Program} {finished : Finished}
    (h : PlayedOut rules p finished) {entry : Entry}
    (hentry : entry ∈ (rounds rules p).flatMap PlayedRound.entries) :
    entry.event.type ≠ .combatEnd := by
  obtain ⟨r, hr, -, hevent⟩ := exists_of_mem_entries hentry
  exact type_ne_combatEnd_of_mem_playRound (h.came r hr ▸ hevent)

section lasting

variable {b : Bout} {rules : Rules} {p : Program} {fewer more : Quantity}

/-- The rounds of a shorter fight are the first ones of a longer, and have the lower numbers. -/
theorem Bout.Stages.exists_rounds_append (h : b.Stages rules p) (hmore : fewer ≤ more) :
    ∃ later, rounds rules (p.lasting more) = rounds rules (p.lasting fewer) ++ later ∧
      (∀ r ∈ rounds rules (p.lasting fewer), r.number ≤ fewer.toNat) ∧
        ∀ r ∈ later, fewer.toNat < r.number := by
  rw [rounds_eq_of_stages (h.lasting more), rounds_eq_of_stages (h.lasting fewer)]
  obtain ⟨later, heq, hlater⟩ := exists_roundsAfter_append rules (scriptsOf p)
    (UInt32.le_iff_toNat_le.mp hmore) 0 ⟨.fresh (b.fighter .starter), .fresh (b.fighter .other)⟩
  refine ⟨later, heq, fun r hr => ?_, fun r hr => ?_⟩
  · have hle := (number_of_mem_roundsAfter hr).2
    rwa [Nat.zero_add] at hle
  · have hlt := hlater r hr
    rwa [Nat.zero_add] at hlt

/-- After a knockout there is nothing to go on with. -/
theorem Bout.Stages.fight_eq_of_knockout (h : b.Stages rules p) (hmore : fewer ≤ more)
    {last : PlayedRound} (hlast : last ∈ rounds rules (p.lasting fewer))
    (hknockout : last.came.knockout = true) :
    fight rules (p.lasting more) (b.fighter .starter) (b.fighter .other)
      = fight rules (p.lasting fewer) (b.fighter .starter) (b.fighter .other) := by
  rw [rounds_eq_of_stages (h.lasting fewer)] at hlast
  rw [fight_eq_of_stages (h.lasting more), fight_eq_of_stages (h.lasting fewer),
    rounds_eq_of_stages (h.lasting more), rounds_eq_of_stages (h.lasting fewer)]
  exact congrArg (fun rounds => (endingOf 0 _ .empty rounds).finish p.matchup.fighterA)
    (roundsAfter_eq_of_knockout (UInt32.le_iff_toNat_le.mp hmore) hlast hknockout)

end lasting

/-- More rounds to fight only extend a fight. The log of the shorter fight without its end is a
prefix of that of the longer one and holds just its deeds in the rounds of the shorter, and after a
knockout both are the same. -/
theorem longer_fight_extends {rules : Rules} {p : Program} {finished : Finished}
    {fewer more : Quantity} (h : run rules p = .ok finished) (hfewer : 1 ≤ fewer)
    (hmore : fewer ≤ more) :
    ∃ short long, run rules (p.lasting fewer) = .ok short ∧
      run rules (p.lasting more) = .ok long ∧
      short.log.records.filter (·.event.type ≠ .combatEnd) <+: long.log.records ∧
      short.log.records.filter (·.event.type ≠ .combatEnd)
        = long.log.records.filter
          (fun r => r.round ≤ fewer.toNat ∧ r.event.type ≠ .combatEnd) ∧
      (short.result.knockout = true → long = short) := by
  obtain ⟨hsound, b, hstages, -⟩ := run_eq_ok_iff.mp h
  have hrun {turns : Quantity} (hturns : 1 ≤ turns) : run rules (p.lasting turns)
      = .ok (fight rules (p.lasting turns) (b.fighter .starter) (b.fighter .other)) :=
    run_eq_ok_iff.mpr ⟨⟨hsound.fighterA, hsound.fighterB, hsound.combatants, hsound.starter,
      UInt32.lt_of_lt_of_le (by decide) hturns⟩, b, hstages.lasting turns, rfl⟩
  have hshort := hrun hfewer
  have hlong := hrun (UInt32.le_trans hfewer hmore)
  have hplayed := playedOut_of_run hshort
  have hplayed' := playedOut_of_run hlong
  refine ⟨_, _, hshort, hlong, ?_⟩
  obtain ⟨later, hrounds, hnumber, hlater⟩ := hstages.exists_rounds_append hmore
  have hlog := hplayed'.log
  rw [hrounds, List.flatMap_append, List.append_assoc] at hlog
  -- the records of the shorter fight without its end are those of its rounds, and so are the
  -- records of the longer one with the numbers of these rounds
  rw [Log.filter_records hplayed.log, Log.filter_records hlog]
  · refine ⟨Log.prefix_mapIdx_record ⟨_, hlog.symm⟩, rfl, fun hknockout => ?_⟩
    obtain ⟨last, hlast, hdown⟩ := Option.map_eq_some_iff.mp hplayed.ending
    exact hstages.fight_eq_of_knockout hmore (List.mem_of_getLast? hlast) (hdown.trans hknockout)
  · intro entry hentry id
    obtain ⟨r, hr, hround, -⟩ := exists_of_mem_entries hentry
    have hle := hnumber r hr
    have hdeed := hplayed.type_ne_combatEnd hentry
    simpa [Entry.record, hround, hdeed] using hle
  · intro entry hentry id
    obtain hentry | hend := List.mem_append.mp hentry
    · obtain ⟨r, hr, hround, -⟩ := exists_of_mem_entries hentry
      have hlt := hlater r hr
      simp [Entry.record, hround, hlt]
    · obtain rfl := List.mem_singleton.mp hend
      simp [Entry.record, Event.type]
  · intro entry hentry id
    exact decide_eq_true (hplayed.type_ne_combatEnd hentry)
  · intro entry hend id
    obtain rfl := List.mem_singleton.mp hend
    rfl

/-- A duel over one round and over seven. -/
theorem longer_fight_extends_duel :
    run {} .duel = .ok (fight {} .duel .beto .ana) ∧ (1 : Quantity) ≤ 1 ∧ (1 : Quantity) ≤ 7 ∧
      ∃ short long, run {} (Program.duel.lasting 1) = .ok short ∧
        run {} (Program.duel.lasting 7) = .ok long ∧
        short.log.records.filter (·.event.type ≠ .combatEnd) <+: long.log.records ∧
        short.log.records.filter (·.event.type ≠ .combatEnd)
          = long.log.records.filter
            (fun r => r.round ≤ (1 : Quantity).toNat ∧ r.event.type ≠ .combatEnd) ∧
        (short.result.knockout = true → long = short) :=
  ⟨rfl, by decide, by decide, longer_fight_extends rfl (by decide) (by decide)⟩

end Lucha.Combat
