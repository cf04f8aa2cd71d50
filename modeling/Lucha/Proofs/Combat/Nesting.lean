import Lucha.Proofs.Combat.Structure
import Mathlib.Logic.Relation
import Mathlib.Data.Nat.SuccPred

/-!
# Combos nested in combos

A combo *nests* another one that a step of it names (`Fighter.Nests`), and combos each of which
nests the next make a path (`Fighter.IsPath`). Wherever a combo is abandoned for its depth or for a
cycle there is a path that ends with it: one that is longer than the limit, or one that comes to it
twice (`Abandoned`). This holds of what comes of a name, with the combos around the name as the
invariant (`Resolves.abandoned`), and so of a fight (`exists_abandoned_of_parse`). Where no combo is
nested in itself a path comes to no combo twice, so it is no longer than the table of combos, and
the guards against recursion end nothing (`acyclic_never_cut`).
-/

namespace Lucha

/-! ### Paths of combos -/

namespace Fighter

/-- A combo has a step that names a combo. -/
def Nests (f : Fighter) (combo step : String) : Prop :=
  ∃ c, f.combos.find? combo = some c ∧ step ∈ c.steps ∧ f.combos.contains step = true

/-- No combo is nested in itself, however deep. -/
def Acyclic (f : Fighter) : Prop :=
  ∀ combo, ¬ Relation.TransGen f.Nests combo combo

/-- Combos each of which nests the next. -/
structure IsPath (f : Fighter) (path : List String) : Prop where
  combos : ∀ combo ∈ path, f.combos.contains combo = true
  chain : path.IsChain f.Nests

/-- So many combos are on the longest paths. -/
def IsLongest (f : Fighter) (length : Nat) : Prop :=
  IsGreatest {n | ∃ path, f.IsPath path ∧ path.length = n} length

namespace IsPath

variable {f : Fighter} {path : List String} {combo step : String}

theorem nil : f.IsPath [] :=
  ⟨by simp, .nil⟩

/-- A path goes on with a step of its last combo that is a combo. -/
theorem concat (h : f.IsPath (path ++ [combo])) (hstep : f.Nests combo step) :
    f.IsPath (path ++ [combo] ++ [step]) where
  combos other hother := by
    obtain hother | hother := List.mem_append.mp hother
    · exact h.combos other hother
    · obtain ⟨-, -, -, hcontains⟩ := hstep
      rwa [List.mem_singleton.mp hother]
  chain := by
    refine h.chain.append (.singleton step) fun last hlast next hnext => ?_
    rw [List.getLast?_concat] at hlast
    cases hlast
    cases hnext
    exact hstep

/-- Where no combo is nested in itself, the earlier ones of a path lead to the later ones and not
back, so it comes to no combo twice. -/
theorem nodup (h : f.IsPath path) (hacyclic : f.Acyclic) : path.Nodup := by
  have hpairs : path.Pairwise (Relation.TransGen f.Nests) :=
    (h.chain.imp fun _ _ hstep => .single hstep).pairwise
  refine hpairs.imp fun {a b} hab heq => ?_
  subst heq
  exact hacyclic a hab

/-- Where no combo is nested in itself, a path has each combo once at most. -/
theorem length_le_size (h : f.IsPath path) (hacyclic : f.Acyclic) :
    path.length ≤ f.combos.size := by
  have hsub : path ⊆ f.combos.names := by
    intro combo hcombo
    obtain ⟨c, hc⟩ := f.combos.contains_eq_true_iff.mp (h.combos combo hcombo)
    exact List.mem_map_of_mem (f := Prod.fst) (f.combos.find?_eq_some_iff_mem.mp hc)
  have hlength := (h.nodup hacyclic).length_le_of_subset hsub
  rwa [Table.names, List.length_map] at hlength

end IsPath

/-- Where no combo is nested in itself there are longest paths. -/
theorem Acyclic.exists_isLongest {f : Fighter} (h : f.Acyclic) :
    ∃ length, f.IsLongest length ∧ length ≤ f.combos.size := by
  have hbounded : BddAbove {n | ∃ path, f.IsPath path ∧ path.length = n} := by
    refine ⟨f.combos.size, ?_⟩
    rintro _ ⟨path, hpath, rfl⟩
    exact hpath.length_le_size h
  obtain ⟨length, hlongest⟩ := hbounded.exists_isGreatest_of_nonempty ⟨0, [], .nil, rfl⟩
  obtain ⟨path, hpath, rfl⟩ := hlongest.1
  exact ⟨_, hlongest, hpath.length_le_size h⟩

end Fighter

namespace Combat

/-! ### Where combos are abandoned -/

/-- Why a combo may be abandoned: it is the end of a path that is longer than the limit, or of one
that comes to it twice, or the budget is spent. -/
inductive Abandoned (f : Fighter) (limit : Nat) (combo : String) : AbortReason → Prop
  | cycle {path : List String} (h : f.IsPath (path ++ [combo])) (hmem : combo ∈ path) :
    Abandoned f limit combo .cycle
  | depthLimit {path : List String} (h : f.IsPath (path ++ [combo]))
    (hlength : path.length = limit) : Abandoned f limit combo .depthLimit
  | budget : Abandoned f limit combo .budget

/-- The combos around a name, the outermost first. If the name is that of a combo, they make a path
that ends with it; and those that fell back to it are among them. -/
structure Encloses (f : Fighter) (around chain : List String) (name : String) : Prop where
  isPath : f.combos.contains name = true → f.IsPath (around ++ [name])
  chain : chain ⊆ around

/-- Around a step of a combo there are those around the combo and the combo. -/
theorem Encloses.step {f : Fighter} {around chain chain' : List String} {name step : String}
    {c : Combo} (h : Encloses f around chain name) (hc : f.combos.find? name = some c)
    (hstep : step ∈ c.steps) (hchain : chain' ⊆ name :: chain) :
    Encloses f (around ++ [name]) chain' step where
  isPath hcontains :=
    (h.isPath (f.combos.contains_eq_true_iff.mpr ⟨c, hc⟩)).concat ⟨c, hc, hstep, hcontains⟩
  chain other hother := by
    obtain rfl | hother := List.mem_cons.mp (hchain hother)
    · exact List.mem_append_right _ List.mem_cons_self
    · exact List.mem_append_left _ (h.chain hother)

/-- Around a name that a script uses there are no combos. -/
theorem Encloses.nil (f : Fighter) (name : String) : Encloses f [] [] name :=
  ⟨fun hcontains => ⟨by simpa using hcontains, .singleton name⟩, List.nil_subset _⟩

/-- No combo is abandoned where an action is attempted. -/
theorem Standing.attempt_ne_abortCombo (s : Standing) (actor target : String) (a : Action)
    (combo : String) (reason : AbortReason) :
    .abortCombo combo reason ≠ s.attempt actor target a := by
  rw [attempt]
  split
  · simp
  · split <;> simp

section

variable {f : Fighter} {target : String} {limit : Nat} {combo : String} {reason : AbortReason}

mutual

/-- Where a combo is abandoned there is a path that ends with it. -/
theorem Resolves.abandoned (hkeyed : f.Keyed) {depth : Nat} {chain : List String} {name : String}
    {s : Standing} {deeds : List Deed} (h : Resolves f target limit depth chain name s deeds)
    {around : List String} (hlength : around.length = depth)
    (haround : Encloses f around chain name)
    (hmem : .abortCombo combo reason ∈ deeds) : Abandoned f limit combo reason := by
  have hinner (name : String) : (around ++ [name]).length = depth + 1 := by
    rw [List.length_append, hlength]
    rfl
  match h with
  | .tooDeep hc hdepth =>
    cases List.mem_singleton.mp hmem
    obtain rfl := hkeyed.combos hc
    exact .depthLimit (haround.isPath (f.combos.contains_eq_true_iff.mpr ⟨_, hc⟩))
      (hlength.trans hdepth)
  | .paid hc _ _ hsteps =>
    have hmem := (List.mem_cons.mp hmem).resolve_left (by simp [Standing.execute])
    exact hsteps.abandoned hkeyed (hinner _) (fun step hstep =>
      haround.step hc hstep (List.nil_subset _)) hmem
  | .fallsBack hc _ _ _ hfirst hstep =>
    have hmem := (List.mem_cons.mp hmem).resolve_left (by simp [Standing.fallBack])
    obtain rfl := hkeyed.combos hc
    have hinside := haround.step hc (List.mem_of_head? hfirst) (List.Subset.refl _)
    exact hstep.abandoned hkeyed (hinner _) hinside hmem
  | .cycle hc _ _ hchain =>
    cases List.mem_singleton.mp hmem
    obtain rfl := hkeyed.combos hc
    exact .cycle (haround.isPath (f.combos.contains_eq_true_iff.mpr ⟨_, hc⟩))
      (haround.chain hchain)
  | .action _ => exact absurd (List.mem_singleton.mp hmem) (s.attempt_ne_abortCombo _ _ _ _ _)
  | .unknown _ _ => simp at hmem
termination_by structural h

/-- A combo is abandoned while some names resolve only for a reason that the combos around it
give. -/
theorem ResolvesAll.abandoned (hkeyed : f.Keyed) {depth : Nat} {names : List String} {s : Standing}
    {deeds : List Deed} (h : ResolvesAll f target limit depth names s deeds)
    {around : List String} (hlength : around.length = depth)
    (haround : ∀ name ∈ names, Encloses f around [] name)
    (hmem : .abortCombo combo reason ∈ deeds) : Abandoned f limit combo reason := by
  match h with
  | .nil => cases hmem
  | .cons hname hnames =>
    obtain ⟨hfirst, hothers⟩ := List.forall_mem_cons.mp haround
    obtain hmem | hmem := List.mem_append.mp hmem
    · exact hname.abandoned hkeyed hlength hfirst hmem
    · exact hnames.abandoned hkeyed hlength hothers hmem
termination_by structural h

end

/-- Where a script abandons a combo there is a path that ends with it. -/
theorem Follows.abandoned (hkeyed : f.Keyed) {b : Block} {s : Standing}
    {uses : List (String × List Deed)} (h : Follows f target limit b s uses)
    (hmem : .abortCombo combo reason ∈ uses.flatMap Prod.snd) :
    Abandoned f limit combo reason := by
  induction h with
  | done => cases hmem
  | use hname _ ih =>
    rw [List.flatMap_cons] at hmem
    obtain hmem | hmem := List.mem_append.mp hmem
    · exact hname.abandoned hkeyed rfl (.nil f _) hmem
    · exact ih hmem
  | choose _ _ ihChosen ihNext =>
    rw [List.flatMap_append] at hmem
    obtain hmem | hmem := List.mem_append.mp hmem
    · exact ihChosen hmem
    · exact ihNext hmem

end

/-- Where a turn abandons a combo there is a path that ends with it, unless the budget is spent. -/
theorem Structured.abandoned {rules : Rules} {f : Fighter} {target : String} {round : Nat}
    {script : Block} {s : Standing} {deeds : List Deed} {combo : String} {reason : AbortReason}
    (hkeyed : f.Keyed) (h : Structured rules f target round script s deeds)
    (hmem : .abortCombo combo reason ∈ deeds) :
    Abandoned f rules.comboDepth.toNat combo reason := by
  obtain ⟨acted, uses, rfl, hfollows, hacted⟩ := h
  have hmem : .abortCombo combo reason ∈ acted :=
    (List.mem_append.mp hmem).resolve_left (by split <;> simp)
  obtain ⟨-, rfl⟩ | ⟨done, next, rest, other, hwhole, -, rfl, -⟩ := hacted
  · exact hfollows.abandoned hkeyed hmem
  · obtain hmem | hmem := List.mem_append.mp hmem
    · exact hfollows.abandoned hkeyed (hwhole ▸ List.mem_append_left _ hmem)
    · cases List.mem_singleton.mp hmem
      exact .budget

namespace Abandoned

variable {f : Fighter} {limit : Nat} {combo : String}

/-- Where no combo is nested in itself, none is abandoned for a cycle. -/
theorem not_cycle (h : f.Acyclic) : ¬ Abandoned f limit combo .cycle := by
  rintro (⟨hpath, hmem⟩ | _)
  exact (List.nodup_append.mp (hpath.nodup h)).2.2 combo hmem combo List.mem_cons_self rfl

/-- A combo is abandoned for its depth only where the longest path is longer than the limit. -/
theorem limit_lt {longest : Nat} (h : Abandoned f limit combo .depthLimit)
    (hlongest : f.IsLongest longest) : limit < longest := by
  obtain _ | ⟨hpath, rfl⟩ := h
  have hle := hlongest.2 ⟨_, hpath, rfl⟩
  rw [List.length_append] at hle
  exact Nat.lt_of_succ_le hle

end Abandoned

/-! ### Fights of programs that are read -/

/-- Where a combo is abandoned in a fight there is a path of combos of its fighter that ends with
it, unless the budget is spent. -/
theorem exists_abandoned_of_parse (rules : Rules) {source : String} {p : Program}
    (h : Program.parse source = .ok p) :
    ∃ finished, run rules p = .ok finished ∧ ∀ actor combo reason,
      .deed actor (.abortCombo combo reason) ∈ finished.log.events →
        ∃ f, p.fighters.find? actor = some f ∧
          Abandoned f rules.comboDepth.toNat combo reason := by
  obtain ⟨finished, hrun, b, hstages, hfair, hfought, hsteps⟩ := exists_fought_of_parse rules h
  refine ⟨finished, hrun, fun actor combo reason hmem => ?_⟩
  obtain ⟨earlier, later, hsplit⟩ := List.append_of_mem hmem
  obtain ⟨slot, s, turn, done, todo, hturn, rfl, hdeeds, -⟩ := hfought.exists_turn? hsplit
  obtain ⟨script, -, hstructured⟩ := Bout.structured_of_turn? hfair hsteps hturn
  have hkeys := (Program.printable_of_parse h).keys
  have hactor : turn.actor = p.matchup.combatant slot.side :=
    (Bout.of_turn? hturn).2.trans (hstages.name_eq hkeys slot.side)
  refine ⟨_, hactor ▸ hstages.fighter slot.side, ?_⟩
  rw [← hstages.rules]
  exact hstructured.abandoned (hfair.keyed slot.side) (hdeeds ▸ List.mem_append_cons_self)

/-- A fighter abandons no combo for a reason. -/
def NeverAbandons (finished : Finished) (actor : String) (reason : AbortReason) : Prop :=
  ∀ combo, .deed actor (.abortCombo combo reason) ∉ finished.log.events

/-- The guards against recursion end nothing that does not recur. A combatant of whose combos none
is nested in itself abandons none for a cycle, and none for its depth if the limit is not less than
the number of combos on a longest path of combos nested in each other, which is at most the number
of its combos. -/
theorem acyclic_never_cut (rules : Rules) (source : String) (p : Program)
    (h : Program.parse source = .ok p) :
    ∃ finished, run rules p = .ok finished ∧
      ∀ name ∈ [p.matchup.fighterA, p.matchup.fighterB], ∃ f, p.fighters.find? name = some f ∧
        (f.Acyclic → NeverAbandons finished name .cycle ∧
          (∃ longest, f.IsLongest longest ∧ longest ≤ f.combos.size ∧
            (longest ≤ rules.comboDepth.toNat → NeverAbandons finished name .depthLimit)) ∧
          (f.combos.size ≤ rules.comboDepth.toNat → NeverAbandons finished name .depthLimit)) := by
  obtain ⟨finished, hrun, habandoned⟩ := exists_abandoned_of_parse rules h
  refine ⟨finished, hrun, fun name hname => ?_⟩
  obtain ⟨f, hf⟩ := (Program.printable_of_parse h).sound.exists_fighter hname
  have hends {combo : String} {reason : AbortReason}
      (hmem : .deed name (.abortCombo combo reason) ∈ finished.log.events) :
      Abandoned f rules.comboDepth.toNat combo reason := by
    obtain ⟨g, hg, hends⟩ := habandoned name combo reason hmem
    cases hf.symm.trans hg
    exact hends
  refine ⟨f, hf, fun hacyclic => ⟨fun combo hmem => ?_, ?_⟩⟩
  · exact Abandoned.not_cycle hacyclic (hends hmem)
  obtain ⟨longest, hlongest, hsize⟩ := hacyclic.exists_isLongest
  have hdepth (hlimit : longest ≤ rules.comboDepth.toNat) :
      NeverAbandons finished name .depthLimit :=
    fun combo hmem => Nat.not_lt.mpr hlimit ((hends hmem).limit_lt hlongest)
  exact ⟨⟨longest, hlongest, hsize, hdepth⟩, fun hlimit => hdepth (hsize.trans hlimit)⟩

end Combat

/-- A fighter with a combo nested in another one. -/
def Fighter.dora : Fighter :=
  { Fighter.ana with
    combos := ⟨[("doble", ⟨"doble", 4, ["jab", "jab"], .none⟩),
      ("triple", ⟨"triple", 1, ["doble", "jab"], .none⟩)], by decide⟩ }

/-- A program where one fighter uses a combo nested in another one. -/
def Program.nested : Program :=
  { Program.duel with
    fighters := ⟨[("Ana", .dora), ("Beto", .beto)], by decide⟩
    scripts := [⟨"Ana", .use "triple" .none .done, .none⟩] }

namespace Fighter

/-- Of the combos of this fighter one is nested in the other, and that is all. -/
theorem nests_dora {combo step : String} (h : dora.Nests combo step) :
    combo = "triple" ∧ step = "doble" := by
  obtain ⟨c, hc, hstep, hcontains⟩ := h
  have hc := dora.combos.find?_eq_some_iff_mem.mp hc
  obtain ⟨rfl, rfl⟩ | ⟨rfl, rfl⟩ : combo = "doble" ∧ c = ⟨"doble", 4, ["jab", "jab"], .none⟩ ∨
      combo = "triple" ∧ c = ⟨"triple", 1, ["doble", "jab"], .none⟩ := by
    simpa [dora] using hc
  · obtain rfl : step = "jab" := by simpa using hstep
    cases hcontains
  · obtain rfl | rfl : step = "doble" ∨ step = "jab" := by simpa using hstep
    · exact ⟨rfl, rfl⟩
    · cases hcontains

/-- So none is nested in itself. -/
theorem acyclic_dora : dora.Acyclic := by
  have hpath {combo name : String} (h : Relation.TransGen dora.Nests combo name) :
      combo = "triple" ∧ name = "doble" := by
    induction h with
    | single hstep => exact nests_dora hstep
    | tail _ hstep ih => exact ⟨ih.1, (nests_dora hstep).2⟩
  intro combo h
  obtain ⟨rfl, hname⟩ := hpath h
  exact absurd hname (by decide)

/-- Both of them together make the longest path. -/
theorem isLongest_dora : dora.IsLongest 2 := by
  refine ⟨⟨["triple", "doble"], ⟨by decide, ?_⟩, rfl⟩, ?_⟩
  · exact .cons_cons ⟨_, rfl, by decide, rfl⟩ (.singleton _)
  · rintro _ ⟨path, hpath, rfl⟩
    exact hpath.length_le_size acyclic_dora

end Fighter

namespace Combat

/-- A limit of two is not less than the longest path of the combatant, and one of one cuts it. -/
theorem acyclic_never_cut_nested :
    Fighter.dora.Acyclic ∧ Fighter.dora.IsLongest 2 ∧
      (fight { maxComboDepth := 1 } .nested .beto .dora).log.ofType .comboAborted ≠ [] ∧
      ∃ p, Program.parse (Program.nested.render 2) = .ok p ∧ p.eraseSpans = Program.nested ∧
        ∃ finished, run { maxComboDepth := 2 } p = .ok finished ∧
          ∀ name ∈ [p.matchup.fighterA, p.matchup.fighterB], ∃ f, p.fighters.find? name = some f ∧
            (f.Acyclic → NeverAbandons finished name .cycle ∧
              (∃ longest, f.IsLongest longest ∧ longest ≤ f.combos.size ∧
                (longest ≤ 2 → NeverAbandons finished name .depthLimit)) ∧
              (f.combos.size ≤ 2 → NeverAbandons finished name .depthLimit)) := by
  have hprintable : Program.nested.Printable := by decide +kernel
  obtain ⟨p, hp, heq⟩ := hprintable.exists_parse_render 2
  exact ⟨Fighter.acyclic_dora, Fighter.isLongest_dora, by decide +kernel, p, hp, heq,
    acyclic_never_cut { maxComboDepth := 2 } (Program.nested.render 2) p hp⟩

end Combat

end Lucha
