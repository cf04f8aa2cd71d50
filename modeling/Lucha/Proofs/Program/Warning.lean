import Lucha.Program.Warning
import Lucha.Proofs.Table
import Mathlib.Data.Nat.Find

/-!
# Which warnings a program gets

First steps are walked from combo to combo (`Fighter.walk`), and a combo falls back into itself
exactly if some walk leads from it back to it (`Fighter.fallsBackIntoItself_iff`): to stop at a combo
that is seen already costs nothing, because the shortest way back comes to none twice. Every
unknown step of a combo gets a warning (`Program.unknownComboStep_mem_warnings`), and so does every
unknown name in the script that a combatant follows (`Program.unknownAction_mem_warnings`), which is
its last one, so no later one takes its place.
-/

namespace Lucha

namespace Fighter

/-! ### Walking first steps -/

/-- The name that so many first steps lead to from a name; each but the last is one of a combo. -/
def walk (f : Fighter) : Nat → String → Option String
  | 0, name => some name
  | count + 1, name => (f.firstStep? name).bind (f.walk count)

variable {f : Fighter}

/-- Steps of a walk add up. -/
theorem walk_add (m n : Nat) (name : String) :
    f.walk (m + n) name = (f.walk m name).bind (f.walk n) := by
  induction m generalizing name with
  | zero => rw [Nat.zero_add, walk, Option.bind_some]
  | succ m ih =>
    have hsteps : f.walk (m + n) = fun name => (f.walk m name).bind (f.walk n) := funext ih
    rw [Nat.succ_add, walk, walk, Option.bind_assoc, hsteps]

/-- A name from which a step leads is the name of a combo. -/
theorem mem_names_of_walk {count : Nat} {name goal : String}
    (h : f.walk (count + 1) name = some goal) : name ∈ f.combos.names := by
  obtain ⟨step, hstep, -⟩ := Option.bind_eq_some_iff.mp h
  obtain ⟨c, hc, -⟩ := Option.bind_eq_some_iff.mp hstep
  exact List.mem_map_of_mem (f := Prod.fst) (f.combos.find?_eq_some_iff_mem.mp hc)

/-- What a combo is found to lead back to is at the end of a walk from it. -/
theorem exists_walk_of_leadsBack {goal : String} {seen : List String} {name : String}
    (h : f.leadsBack goal seen name = true) : ∃ count, f.walk (count + 1) name = some goal := by
  fun_induction leadsBack f goal seen name with
  | case1 => cases h
  | case2 seen name hstep => exact ⟨0, by rw [walk, hstep]; rfl⟩
  | case3 seen name step hstep hgoal hnew ih =>
    obtain ⟨count, hwalk⟩ := ih h
    exact ⟨count + 1, by rw [walk, hstep]; exact hwalk⟩
  | case4 => cases h

/-- The shortest walk to a goal is followed to its end if it comes to no combo that is seen already:
it comes to none twice either, for between two visits there would be a detour. -/
theorem leadsBack_of_shortest {goal : String} {seen : List String} {count : Nat} {name : String}
    (h : f.walk (count + 1) name = some goal)
    (hshortest : ∀ shorter < count, f.walk (shorter + 1) name ≠ some goal)
    (hnew : ∀ i < count, ∀ place ∈ f.walk (i + 1) name, place ∉ seen) :
    f.leadsBack goal seen name = true := by
  induction count generalizing seen name with
  | zero =>
    have hstep : f.firstStep? name = some goal := by simpa [walk] using h
    rw [leadsBack, hstep]
    exact if_pos rfl
  | succ count ih =>
    obtain ⟨step, hstep, hrest⟩ := Option.bind_eq_some_iff.mp h
    have hfrom (i : Nat) : f.walk (i + 1) name = f.walk i step := by rw [walk, hstep]; rfl
    have hne : step ≠ goal := fun heq =>
      hshortest 0 (Nat.succ_pos count) ((hfrom 0).trans (congrArg some heq))
    have hcombo : f.combos.contains step = true :=
      f.combos.mem_names_iff.mp (mem_names_of_walk hrest)
    have hstepNew : step ∉ seen := hnew 0 (Nat.succ_pos count) step (hfrom 0)
    rw [leadsBack, hstep]
    dsimp only
    rw [if_neg hne, if_pos ⟨hcombo, hstepNew⟩]
    refine ih hrest (fun shorter hshorter => ?_) fun i hi place hplace => ?_
    · rw [← hfrom]
      exact hshortest (shorter + 1) (Nat.succ_lt_succ hshorter)
    · have hlater := hnew (i + 1) (Nat.succ_lt_succ hi) place ((hfrom (i + 1)).trans hplace)
      refine List.not_mem_cons_of_ne_of_not_mem (fun heq => ?_) hlater
      have hsplit : count + 1 = i + 1 + (count - i) := by omega
      rw [hsplit, walk_add, hplace, heq] at hrest
      exact hshortest (count - i) (by omega) ((hfrom _).trans hrest)

/-- A combo falls back into itself if and only if some first steps lead from it back to it. -/
theorem fallsBackIntoItself_iff {combo : String} :
    f.fallsBackIntoItself combo = true ↔ ∃ count, f.walk (count + 1) combo = some combo := by
  constructor
  · exact exists_walk_of_leadsBack
  · intro h
    classical
    exact leadsBack_of_shortest (Nat.find_spec h) (fun _ => Nat.find_min h)
      fun _ _ _ _ => List.not_mem_nil

/-! ### Warnings about fighters -/

theorem mem_warnings_of_combo {name : String} {c : Combo} (hc : f.combos.find? name = some c)
    {warning : Warning} (h : warning ∈ f.comboWarnings c) : warning ∈ f.warnings :=
  List.mem_flatMap.mpr
    ⟨c, List.mem_map_of_mem (f := Prod.snd) (f.combos.find?_eq_some_iff_mem.mp hc), h⟩

end Fighter

namespace Program

/-- There is a warning that a fighter does not know a name: one that its script uses, or a step of
one of its combos. -/
def WarnsOfUnknown (p : Program) (fighter name : String) : Prop :=
  (∃ line, .unknownAction fighter name line ∈ p.warnings) ∨
    ∃ combo line, .unknownComboStep fighter combo name line ∈ p.warnings

variable {p : Program} {f : Fighter} {name : String}

theorem mem_warnings_of_fighter {key : String} (hf : p.fighters.find? key = some f)
    {warning : Warning} (h : warning ∈ f.warnings) : warning ∈ p.warnings :=
  List.mem_append_left _ (List.mem_flatMap.mpr
    ⟨f, List.mem_map_of_mem (f := Prod.snd) (p.fighters.find?_eq_some_iff_mem.mp hf), h⟩)

/-- A step of a combo that is neither an action nor a combo gets a warning. -/
theorem unknownComboStep_mem_warnings {key : String} (hf : p.fighters.find? key = some f)
    {c : Combo} (hc : f.combos.find? name = some c) {step : String} (hstep : step ∈ c.steps)
    (hunknown : f.knows step = false) :
    .unknownComboStep f.name c.name step c.span.line ∈ p.warnings := by
  refine mem_warnings_of_fighter hf (Fighter.mem_warnings_of_combo hc ?_)
  have hmem : step ∈ c.steps.filter fun step => !f.knows step :=
    List.mem_filter.mpr ⟨hstep, by rw [hunknown]; rfl⟩
  exact List.mem_append_left _ (List.mem_append_right _
    (List.mem_map_of_mem (f := (Warning.unknownComboStep f.name c.name · c.span.line)) hmem))

/-- A combo that falls back into itself gets a warning. -/
theorem fallbackCycle_mem_warnings {key : String} (hf : p.fighters.find? key = some f) {c : Combo}
    (hc : f.combos.find? name = some c) (hcycle : f.fallsBackIntoItself c.name = true) :
    .fallbackCycle f.name c.name c.span.line ∈ p.warnings := by
  refine mem_warnings_of_fighter hf (Fighter.mem_warnings_of_combo hc ?_)
  refine List.mem_append_right _ ?_
  rw [if_pos hcycle]
  exact List.mem_singleton_self _

/-! ### Warnings about scripts -/

/-- The script that a fighter follows is its last one. -/
theorem scriptFor?_eq_some_iff {script : Script} :
    p.scriptFor? name = some script ↔ script.fighter = name ∧
      ∃ earlier later, p.scripts = earlier ++ script :: later ∧
        ∀ other ∈ later, other.fighter ≠ name := by
  rw [scriptFor?, List.find?_eq_some_iff_append, decide_eq_true_iff]
  refine and_congr_right fun _ => ?_
  constructor
  · rintro ⟨later, earlier, hsplit, hothers⟩
    refine ⟨earlier.reverse, later.reverse, ?_, fun other hother => ?_⟩
    · rw [List.reverse_eq_iff] at hsplit
      simpa using hsplit
    · simpa using hothers other (List.mem_reverse.mp hother)
  · rintro ⟨earlier, later, hsplit, hothers⟩
    refine ⟨later.reverse, earlier.reverse, by simp [hsplit], fun other hother => ?_⟩
    simpa using hothers other (List.mem_reverse.mp hother)

theorem mem_scriptsWarnings {earlier later : List Script} {script : Script} {warning : Warning}
    (h : warning ∈ p.scriptWarnings script later) :
    warning ∈ p.scriptsWarnings (earlier ++ script :: later) := by
  induction earlier with
  | nil => exact List.mem_append_left _ h
  | cons first earlier ih => exact List.mem_append_right _ ih

/-- A name that a combatant uses in the script it follows and that is neither an action nor a combo
gets a warning. -/
theorem unknownAction_mem_warnings (hf : p.fighters.find? name = some f)
    (hcombatant : name ∈ [p.matchup.fighterA, p.matchup.fighterB]) {script : Script}
    (hscript : p.scriptFor? name = some script) {use : String × Span}
    (huse : use ∈ script.body.uses) (hunknown : f.knows use.1 = false) :
    .unknownAction f.name use.1 use.2.line ∈ p.warnings := by
  obtain ⟨rfl, earlier, later, hsplit, hothers⟩ := scriptFor?_eq_some_iff.mp hscript
  refine List.mem_append_right _ ?_
  rw [hsplit]
  refine mem_scriptsWarnings ?_
  have hlast : later.any (·.fighter = script.fighter) = false := by simpa using hothers
  have hmem : use ∈ script.body.uses.filter fun use => !f.knows use.1 :=
    List.mem_filter.mpr ⟨huse, by rw [hunknown]; rfl⟩
  have hfights : ¬(script.fighter ≠ p.matchup.fighterA ∧ script.fighter ≠ p.matchup.fighterB) := by
    simpa [or_iff_not_imp_left] using hcombatant
  rw [scriptWarnings, if_neg hfights, hlast, if_neg Bool.false_ne_true, hf]
  exact List.mem_map_of_mem (f := fun use => Warning.unknownAction f.name use.1 use.2.line) hmem

end Program

end Lucha
