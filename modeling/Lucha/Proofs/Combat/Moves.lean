import Lucha.Proofs.Combat.Account
import Lucha.Proofs.Combat.Resolution

/-!
# What moves do

A move does what is said of it, or the budget of the turn breaks it off (`Move.Meets`). Where it is
broken off, its deeds are the beginning of what would have come of it, and the last of them says
that the combo that would have come next is abandoned (`BrokenOff`); nothing follows then
(`Move.Stops`). So a turn that follows a script does what comes of the script, or the beginning of
it (`Move.meets_follow`).
-/

namespace Lucha.Combat

/-- No combo is abandoned for want of budget. -/
def InBudget (deeds : List Deed) : Prop :=
  ∀ combo, .abortCombo combo .budget ∉ deeds

/-- Of the whole, the deeds are what stands before some deed about a combo, and then the combo is
abandoned for want of budget. -/
def BrokenOff (whole deeds : List Deed) : Prop :=
  ∃ done next rest combo, whole = done ++ next :: rest ∧ next.combo? = some combo ∧
    deeds = done ++ [.abortCombo combo .budget] ∧ InBudget done

theorem InBudget.nil : InBudget [] := fun _ => List.not_mem_nil

/-- Deeds are in budget if their parts are. -/
theorem InBudget.append {deeds more : List Deed} (h : InBudget deeds) (h' : InBudget more) :
    InBudget (deeds ++ more) :=
  fun combo hmem => (List.mem_append.mp hmem).elim (h combo) (h' combo)

theorem InBudget.singleton {deed : Deed} (h : ∀ combo, deed ≠ .abortCombo combo .budget) :
    InBudget [deed] :=
  fun combo hmem => h combo (List.mem_singleton.mp hmem).symm

namespace BrokenOff

variable {whole deeds : List Deed}

/-- What is broken off can have something before it. -/
theorem prepend {front : List Deed} (hfront : InBudget front) (h : BrokenOff whole deeds) :
    BrokenOff (front ++ whole) (front ++ deeds) := by
  obtain ⟨done, next, rest, combo, rfl, hcombo, rfl, hdone⟩ := h
  exact ⟨front ++ done, next, rest, combo, (List.append_assoc ..).symm, hcombo,
    (List.append_assoc ..).symm, hfront.append hdone⟩

/-- Nothing comes of what would have followed. -/
theorem extend (h : BrokenOff whole deeds) (more : List Deed) :
    BrokenOff (whole ++ more) deeds := by
  obtain ⟨done, next, rest, combo, rfl, hcombo, rfl, hdone⟩ := h
  exact ⟨done, next, rest ++ more, combo, List.append_assoc .., hcombo, rfl, hdone⟩

end BrokenOff

namespace Move

/-- In an exhausted turn a move does nothing. -/
def Stops (m : Move) : Prop :=
  ∀ ⦃t : Turn⦄, t.exhausted = true → m t = ([], t)

theorem stops_rest : rest.Stops := fun _ _ => rfl

/-- Moves stop one after the other if each of them stops. -/
theorem Stops.andThen {m m' : Move} (h : m.Stops) (h' : m'.Stops) : (m.andThen m').Stops := by
  intro t ht
  simp only [Move.andThen, h ht, h' ht, List.append_nil]

/-- Nothing comes of a name in a turn that is exhausted. -/
theorem stops_named (name : String) (ofCombo : Combo → Move) : (named name ofCombo).Stops := by
  intro t ht
  rw [named, if_pos ht]
  rfl

theorem stops_resolve (levels : Nat) (chain : List String) (name : String) :
    (resolve levels chain name).Stops := by
  cases levels <;> exact stops_named name _

/-- Nothing comes of a script in a turn that is exhausted. -/
theorem stops_follow (levels : Nat) (b : Block) : (follow levels b).Stops := by
  induction b with
  | done => exact stops_rest
  | use name span next ih => exact (stops_resolve levels [] name).andThen ih
  | choose condition yes no next hyes hno hnext =>
    have hchosen : (branch condition (follow levels yes) (follow levels no)).Stops := by
      intro t ht
      rw [branch]
      split
      · exact hyes ht
      · exact hno ht
    exact hchosen.andThen hnext

/-- From every turn that is not exhausted the move does what is said of it where the fighters stand
so, or the budget breaks it off. -/
def Meets (f g : Fighter) (spec : Standing → List Deed → Prop) (m : Move) : Prop :=
  ∀ ⦃s t⦄, s.Tracks f g t → t.exhausted = false →
    (spec s (m t).1 ∧ InBudget (m t).1 ∧ (m t).2.exhausted = false) ∨
      ((∃ whole, spec s whole ∧ BrokenOff whole (m t).1) ∧ (m t).2.exhausted = true)

variable {f g : Fighter} {m m' : Move} {spec spec' : Standing → List Deed → Prop}

/-- A move that meets a specification meets every weaker one. -/
theorem Meets.mono (h : m.Meets f g spec) (himp : ∀ s deeds, spec s deeds → spec' s deeds) :
    m.Meets f g spec' := by
  intro s t ht hexhausted
  obtain ⟨hspec, hrest⟩ | ⟨⟨whole, hspec, hbroken⟩, hrest⟩ := h ht hexhausted
  · exact .inl ⟨himp _ _ hspec, hrest⟩
  · exact .inr ⟨⟨whole, himp _ _ hspec, hbroken⟩, hrest⟩

/-- Two moves one after the other. Where the first is broken off, the second would have gone on from
where the whole of the first leads. -/
theorem Meets.andThen (h : m.Meets f g spec) (hfaithful : m.Faithful f g)
    (h' : m'.Meets f g spec') (hstops : m'.Stops) (htotal : ∀ s, ∃ deeds, spec' s deeds) :
    (m.andThen m').Meets f g fun s deeds => ∃ first more, deeds = first ++ more ∧ spec s first ∧
      spec' (s.afterDeeds f.name first) more := by
  intro s t ht hexhausted
  have htracks := (hfaithful ht).2
  simp only [Move.andThen]
  obtain ⟨hfirst, hbudget, hfresh⟩ | ⟨⟨whole, hwhole, hbroken⟩, hout⟩ := h ht hexhausted
  · obtain ⟨hmore, hbudget', hrest⟩ | ⟨⟨whole, hwhole, hbroken⟩, hrest⟩ := h' htracks hfresh
    · exact .inl ⟨⟨_, _, rfl, hfirst, hmore⟩, hbudget.append hbudget', hrest⟩
    · exact .inr ⟨⟨_, ⟨_, whole, rfl, hfirst, hwhole⟩, hbroken.prepend hbudget⟩, hrest⟩
  · -- the second move does nothing, and what would have come of it comes after the whole first
    obtain ⟨more, hmore⟩ := htotal (s.afterDeeds f.name whole)
    simp only [hstops hout, List.append_nil]
    exact .inr ⟨⟨_, ⟨whole, more, rfl, hwhole, hmore⟩, hbroken.extend more⟩, hout⟩

section

variable {limit levels depth : Nat} {chain : List String} {name : String} {c : Combo}

/-- Entering a combo: the budget may break it off before it begins. -/
theorem meets_enter (hsteps : HasSteps f) (hlimit : depth + levels = limit)
    (hc : f.combos.find? name = some c)
    (h : m.Meets f g (Resolves f g.name limit depth chain name)) :
    (enter c m).Meets f g (Resolves f g.name limit depth chain name) := by
  intro s t ht hexhausted
  rw [enter]
  split
  · -- nothing of it is done, but what would have come begins with a deed about the combo
    obtain ⟨whole, hwhole, hbegins⟩ := exists_resolves g.name hsteps hlimit chain name s
    obtain ⟨next, rest, rfl, hcombo⟩ := hbegins c hc
    exact .inr ⟨⟨_, hwhole, [], next, rest, c.name, rfl, hcombo, rfl, .nil⟩, rfl⟩
  · exact h ⟨ht.actor, ht.target⟩ hexhausted

/-- Using a name that is no combo does what comes of it. -/
theorem meets_named (hne : f.name ≠ g.name) {ofCombo : Combo → Move}
    (h : ∀ c, f.combos.find? name = some c →
      (ofCombo c).Meets f g (Resolves f g.name limit depth chain name)) :
    (named name ofCombo).Meets f g (Resolves f g.name limit depth chain name) := by
  intro s t ht hexhausted
  have hfighter : t.actor.fighter = f := congrArg Contender.fighter ht.actor
  rw [named, hfighter, hexhausted, if_neg Bool.false_ne_true]
  cases hc : f.combos.find? name with
  | some c => exact h c hc ht hexhausted
  | none =>
    cases ha : f.actions.find? name with
    | none => exact .inl ⟨.unknown hc ha, .singleton (by simp), hexhausted⟩
    | some a =>
      obtain ⟨t', hact, -, -, hexhausted'⟩ := act_eq hne ht a
      have hbudget : InBudget [s.attempt f.name g.name a] := by
        refine .singleton fun combo => ?_
        rw [Standing.attempt]
        split
        · simp
        · split <;> simp
      simp only [hact]
      exact .inl ⟨.action ⟨ha, hc⟩, hbudget, hexhausted'.trans hexhausted⟩

end

section

variable {limit : Nat}

/-- Something comes of a name at every depth that is allowed. -/
private theorem total_resolves (hsteps : HasSteps f) {levels depth : Nat}
    (hlimit : depth + levels = limit) (chain : List String) (name : String) (s : Standing) :
    ∃ deeds, Resolves f g.name limit depth chain name s deeds := by
  obtain ⟨deeds, hdeeds, -⟩ := exists_resolves g.name hsteps hlimit chain name s
  exact ⟨deeds, hdeeds⟩

variable (hne : f.name ≠ g.name) (hkeyed : f.Keyed) (hsteps : HasSteps f)
include hne hkeyed hsteps

/-- Doing some names one after the other does what comes of them. -/
theorem meets_all {levels depth : Nat} (hlimit : depth + levels = limit)
    (h : ∀ name, (resolve levels [] name).Meets f g (Resolves f g.name limit depth [] name))
    (names : List String) :
    (all (names.map (resolve levels []))).Meets f g (ResolvesAll f g.name limit depth names) ∧
      (all (names.map (resolve levels []))).Stops := by
  induction names with
  | nil => exact ⟨fun s t _ hexhausted => .inl ⟨.nil, .nil, hexhausted⟩, stops_rest⟩
  | cons name names ih =>
    obtain ⟨hmeets, hstops⟩ := ih
    have htotal (s : Standing) : ∃ deeds, ResolvesAll f g.name limit depth names s deeds :=
      ResolvesAll.exists_of_forall (fun name s => total_resolves hsteps hlimit [] name s) names s
    have hfaithful := faithful_resolve hne hkeyed levels [] name
    have hall := (h name).andThen hfaithful hmeets hstops htotal
    refine ⟨hall.mono fun s deeds => ?_, (stops_resolve levels [] name).andThen hstops⟩
    rintro ⟨first, more, rfl, hfirst, hmore⟩
    exact .cons hfirst hmore

/-- Doing a combo does what comes of it, if its steps do what comes of them. -/
theorem meets_perform {levels depth : Nat} (hlimit : depth + (levels + 1) = limit)
    {chain : List String} {name : String} {c : Combo} (hc : f.combos.find? name = some c)
    (h : ∀ chain name, (resolve levels chain name).Meets f g
      (Resolves f g.name limit (depth + 1) chain name)) :
    (perform c chain (resolve levels)).Meets f g (Resolves f g.name limit depth chain name) := by
  intro s t ht hexhausted
  have hdepth : depth < limit := by omega
  have hlimit : depth + 1 + levels = limit := by omega
  by_cases hcost : c.cost ≤ (s f.name).stamina
  · -- paid: the steps are done where the payment leaves the fighter
    have htracks := tracks_execute hne ht c
    have hbudget : InBudget [s.execute f.name c] := .singleton (by simp [Standing.execute])
    rw [perform_of_le ht hcost]
    obtain ⟨hdeeds, hbudget', hrest⟩ | ⟨⟨whole, hwhole, hbroken⟩, hrest⟩ :=
      (meets_all hne hkeyed hsteps hlimit (h []) c.steps).1 htracks hexhausted
    · exact .inl ⟨.paid hc hdepth hcost hdeeds, hbudget.append hbudget', hrest⟩
    · exact .inr ⟨⟨_, .paid hc hdepth hcost hwhole, hbroken.prepend hbudget⟩, hrest⟩
  · have hlt := UInt32.not_le.mp hcost
    rw [perform_of_lt ht hlt]
    -- not paid: abandoned if the combo fell back before, else its first step is done
    split
    · rename_i hchain
      exact .inl ⟨.cycle hc hdepth hlt hchain, .singleton (by simp), hexhausted⟩
    · rename_i hchain
      split
      · rename_i hnone
        rw [Combo.firstStep?, List.head?_eq_none_iff] at hnone
        exact absurd hnone (hsteps hc)
      · rename_i first hfirst
        have hbudget : InBudget [s.fallBack f.name c first] :=
          .singleton (by simp [Standing.fallBack])
        obtain ⟨hdeeds, hbudget', hrest⟩ | ⟨⟨whole, hwhole, hbroken⟩, hrest⟩ :=
          h (c.name :: chain) first ht hexhausted
        · exact .inl ⟨.fallsBack hc hdepth hlt hchain hfirst hdeeds, hbudget.append hbudget', hrest⟩
        · exact .inr ⟨⟨_, .fallsBack hc hdepth hlt hchain hfirst hwhole,
            hbroken.prepend hbudget⟩, hrest⟩

/-- Using a name does what comes of it, by induction on the levels that are left. -/
theorem meets_resolve {levels depth : Nat} (hlimit : depth + levels = limit) (chain : List String)
    (name : String) :
    (resolve levels chain name).Meets f g (Resolves f g.name limit depth chain name) := by
  induction levels generalizing depth chain name with
  | zero =>
    refine meets_named hne fun c hc => meets_enter hsteps hlimit hc fun s t ht hexhausted => ?_
    exact .inl ⟨.tooDeep hc hlimit, .singleton (by simp), hexhausted⟩
  | succ levels ih =>
    refine meets_named hne fun c hc => meets_enter hsteps hlimit hc ?_
    exact meets_perform hne hkeyed hsteps hlimit hc (ih (by omega))

/-- Following a script does what comes of it. -/
theorem meets_follow (b : Block) :
    (follow limit b).Meets f g fun s deeds =>
      ∃ uses, Follows f g.name limit b s uses ∧ deeds = uses.flatMap Prod.snd := by
  have htotal (b : Block) (s : Standing) : ∃ deeds uses, Follows f g.name limit b s uses ∧
      deeds = uses.flatMap Prod.snd := by
    obtain ⟨uses, huses⟩ := exists_follows g.name hsteps b s
    exact ⟨_, uses, huses, rfl⟩
  induction b with
  | done => exact fun s t _ hexhausted => .inl ⟨⟨[], .done, rfl⟩, .nil, hexhausted⟩
  | use name span next ih =>
    have hname := meets_resolve hne hkeyed hsteps (Nat.zero_add limit) [] name
    have hall := hname.andThen (faithful_resolve hne hkeyed limit [] name) ih
      (stops_follow limit next) (htotal next)
    refine hall.mono fun s deeds => ?_
    rintro ⟨first, more, rfl, hfirst, uses, huses, rfl⟩
    exact ⟨_, .use hfirst huses, rfl⟩
  | choose condition yes no next hyes hno hnext =>
    have hchosen : (branch condition (follow limit yes) (follow limit no)).Meets f g
        fun s deeds => ∃ uses, Follows f g.name limit
          (if s.satisfies f.name g.name condition then yes else no) s uses ∧
            deeds = uses.flatMap Prod.snd := by
      intro s t ht hexhausted
      dsimp only
      rw [branch, ht.satisfies_eq]
      cases s.satisfies f.name g.name condition with
      | true => exact hyes ht hexhausted
      | false => exact hno ht hexhausted
    have hfaithful := (faithful_follow hne hkeyed limit yes).branch
      (faithful_follow hne hkeyed limit no) condition
    have hall := hchosen.andThen hfaithful hnext (stops_follow limit next) (htotal next)
    refine hall.mono fun s deeds => ?_
    rintro ⟨first, more, rfl, ⟨chosen, hchosen, rfl⟩, uses, huses, rfl⟩
    exact ⟨_, .choose hchosen huses, (List.flatMap_append ..).symm⟩

end

end Move

end Lucha.Combat
