import Lucha.Proofs.Combat.Standing

/-!
# What comes of a name

The language says what a fighter does that uses a name (`Resolves`): a combo that can be paid for is
paid for and all its steps come of it, one that cannot falls back to its first step, and an action
gives one deed. Combos are nested so many levels and no more, and a chain of fallbacks does not come
back to a combo on it. Which instructions of a script are followed depends on how the fighters stand
when each condition is reached (`Follows`). Something comes of every name and every script
(`exists_resolves`, `exists_follows`), and nothing else could (`Resolves.unique`, `Follows.unique`).
-/

namespace Lucha.Combat

/-- The combo that a deed is about. -/
def Deed.combo? : Deed → Option String
  | .executeCombo combo _ _ => some combo
  | .fallBack combo _ _ _ => some combo
  | .abortCombo combo _ => some combo
  | _ => none

section

variable (f : Fighter) (target : String) (limit : Nat)

mutual

/-- The deeds that come of a name: at a depth below other combos, after a chain of combos that fell
back to it, where the fighters stand so. -/
inductive Resolves : Nat → List String → String → Standing → List Deed → Prop
  /-- A combo as deep as combos may not be is abandoned. -/
  | tooDeep {depth : Nat} {chain : List String} {name : String} {s : Standing} {c : Combo}
      (hc : f.combos.find? name = some c) (hdepth : depth = limit) :
      Resolves depth chain name s [.abortCombo c.name .depthLimit]
  /-- A combo that can be paid for is paid for, and all its steps come of it, each by itself. -/
  | paid {depth : Nat} {chain : List String} {name : String} {s : Standing} {c : Combo}
      {deeds : List Deed} (hc : f.combos.find? name = some c) (hdepth : depth < limit)
      (hcost : c.cost ≤ (s f.name).stamina)
      (hsteps : ResolvesAll (depth + 1) c.steps (s.pay f.name c.cost) deeds) :
      Resolves depth chain name s (s.execute f.name c :: deeds)
  /-- A combo that cannot be paid for falls back to its first step. -/
  | fallsBack {depth : Nat} {chain : List String} {name : String} {s : Standing} {c : Combo}
      {first : String} {deeds : List Deed} (hc : f.combos.find? name = some c)
      (hdepth : depth < limit) (hcost : (s f.name).stamina < c.cost) (hchain : c.name ∉ chain)
      (hfirst : c.firstStep? = some first)
      (hstep : Resolves (depth + 1) (c.name :: chain) first s deeds) :
      Resolves depth chain name s (s.fallBack f.name c first :: deeds)
  /-- A combo that fell back already is abandoned. -/
  | cycle {depth : Nat} {chain : List String} {name : String} {s : Standing} {c : Combo}
      (hc : f.combos.find? name = some c) (hdepth : depth < limit)
      (hcost : (s f.name).stamina < c.cost) (hchain : c.name ∈ chain) :
      Resolves depth chain name s [.abortCombo c.name .cycle]
  | action {depth : Nat} {chain : List String} {name : String} {s : Standing} {a : Action}
      (ha : Offers f name a) : Resolves depth chain name s [s.attempt f.name target a]
  | unknown {depth : Nat} {chain : List String} {name : String} {s : Standing}
      (hc : f.combos.find? name = none) (ha : f.actions.find? name = none) :
      Resolves depth chain name s [.failName name]

/-- The deeds that come of some names, one after the other. -/
inductive ResolvesAll : Nat → List String → Standing → List Deed → Prop
  | nil {depth : Nat} {s : Standing} : ResolvesAll depth [] s []
  | cons {depth : Nat} {name : String} {names : List String} {s : Standing}
      {deeds more : List Deed} (hname : Resolves depth [] name s deeds)
      (hnames : ResolvesAll depth names (s.afterDeeds f.name deeds) more) :
      ResolvesAll depth (name :: names) s (deeds ++ more)

end

/-- The names that are used when a block is followed, and the deeds that come of each. -/
inductive Follows : Block → Standing → List (String × List Deed) → Prop
  | done {s : Standing} : Follows .done s []
  | use {name : String} {span : Span} {next : Block} {s : Standing} {deeds : List Deed}
      {uses : List (String × List Deed)} (hname : Resolves f target limit 0 [] name s deeds)
      (hnext : Follows next (s.afterDeeds f.name deeds) uses) :
      Follows (.use name span next) s ((name, deeds) :: uses)
  | choose {condition : Condition} {yes no next : Block} {s : Standing}
      {chosen uses : List (String × List Deed)}
      (hchosen : Follows (if s.satisfies f.name target condition then yes else no) s chosen)
      (hnext : Follows next (s.afterDeeds f.name (chosen.flatMap Prod.snd)) uses) :
      Follows (.choose condition yes no next) s (chosen ++ uses)

end

variable {f : Fighter} {target : String} {limit : Nat}

/-! ### Something comes of every name -/

/-- The steps of the combos of a fighter: there is one at least. -/
def HasSteps (f : Fighter) : Prop :=
  ∀ ⦃name c⦄, f.combos.find? name = some c → c.steps ≠ []

/-- Something comes of some names if something comes of each of them. -/
theorem ResolvesAll.exists_of_forall {depth : Nat}
    (h : ∀ name s, ∃ deeds, Resolves f target limit depth [] name s deeds) (names : List String)
    (s : Standing) : ∃ deeds, ResolvesAll f target limit depth names s deeds := by
  induction names generalizing s with
  | nil => exact ⟨[], .nil⟩
  | cons name names ih =>
    obtain ⟨deeds, hdeeds⟩ := h name s
    obtain ⟨more, hmore⟩ := ih (s.afterDeeds f.name deeds)
    exact ⟨deeds ++ more, .cons hdeeds hmore⟩

/-- What comes of a combo begins with a deed about it. -/
def BeginsWith (combo : String) (deeds : List Deed) : Prop :=
  ∃ next rest, deeds = next :: rest ∧ next.combo? = some combo

/-- Something comes of a name, if something comes of the combo that it may stand for. -/
private theorem exists_resolves_of_combo {depth : Nat} {chain : List String} {name : String}
    {s : Standing} (h : ∀ c, f.combos.find? name = some c →
      ∃ deeds, Resolves f target limit depth chain name s deeds ∧ BeginsWith c.name deeds) :
    ∃ deeds, Resolves f target limit depth chain name s deeds ∧
      ∀ c, f.combos.find? name = some c → BeginsWith c.name deeds := by
  cases hc : f.combos.find? name with
  | some c =>
    obtain ⟨deeds, hdeeds, hbegins⟩ := h c hc
    refine ⟨deeds, hdeeds, fun c' hc' => ?_⟩
    cases hc'
    exact hbegins
  | none =>
    have hdeeds : ∃ deeds, Resolves f target limit depth chain name s deeds := by
      cases ha : f.actions.find? name with
      | some a => exact ⟨_, .action ⟨ha, hc⟩⟩
      | none => exact ⟨_, .unknown hc ha⟩
    obtain ⟨deeds, hdeeds⟩ := hdeeds
    exact ⟨deeds, hdeeds, nofun⟩

/-- Something comes of every name, by induction on the levels that are left. -/
theorem exists_resolves (target : String) (hsteps : HasSteps f) {levels depth : Nat}
    (hlimit : depth + levels = limit) (chain : List String) (name : String) (s : Standing) :
    ∃ deeds, Resolves f target limit depth chain name s deeds ∧
      ∀ c, f.combos.find? name = some c → BeginsWith c.name deeds := by
  induction levels generalizing depth chain name s with
  | zero => exact exists_resolves_of_combo fun c hc => ⟨_, .tooDeep hc hlimit, _, _, rfl, rfl⟩
  | succ levels ih =>
    refine exists_resolves_of_combo fun c hc => ?_
    have hdepth : depth < limit := by omega
    have hlimit : depth + 1 + levels = limit := by omega
    by_cases hcost : c.cost ≤ (s f.name).stamina
    · -- every step of a combo that is paid for starts a chain of its own
      have hstep (name : String) (s : Standing) :
          ∃ deeds, Resolves f target limit (depth + 1) [] name s deeds := by
        obtain ⟨deeds, hdeeds, -⟩ := ih hlimit [] name s
        exact ⟨deeds, hdeeds⟩
      obtain ⟨deeds, hdeeds⟩ := ResolvesAll.exists_of_forall hstep c.steps (s.pay f.name c.cost)
      exact ⟨_, .paid hc hdepth hcost hdeeds, _, _, rfl, rfl⟩
    · have hlt := UInt32.not_le.mp hcost
      by_cases hchain : c.name ∈ chain
      · exact ⟨_, .cycle hc hdepth hlt hchain, _, _, rfl, rfl⟩
      · obtain ⟨first, rest, hfirst⟩ := List.exists_cons_of_ne_nil (hsteps hc)
        obtain ⟨deeds, hdeeds, -⟩ := ih hlimit (c.name :: chain) first s
        have hhead : c.firstStep? = some first := by rw [Combo.firstStep?, hfirst]; rfl
        exact ⟨_, .fallsBack hc hdepth hlt hchain hhead hdeeds, _, _, rfl, rfl⟩

/-- Something comes of every script. -/
theorem exists_follows (target : String) (hsteps : HasSteps f) (b : Block) (s : Standing) :
    ∃ uses, Follows f target limit b s uses := by
  induction b generalizing s with
  | done => exact ⟨[], .done⟩
  | use name span next ih =>
    obtain ⟨deeds, hdeeds, -⟩ := exists_resolves target hsteps (Nat.zero_add limit) [] name s
    obtain ⟨uses, huses⟩ := ih (s.afterDeeds f.name deeds)
    exact ⟨_, .use hdeeds huses⟩
  | choose condition yes no next hyes hno hnext =>
    have hchosen : ∃ chosen, Follows f target limit
        (if s.satisfies f.name target condition then yes else no) s chosen := by
      split
      · exact hyes s
      · exact hno s
    obtain ⟨chosen, hchosen⟩ := hchosen
    obtain ⟨uses, huses⟩ := hnext (s.afterDeeds f.name (chosen.flatMap Prod.snd))
    exact ⟨_, .choose hchosen huses⟩

/-! ### Nothing else comes of it -/

mutual

/-- What comes of a name is determined. -/
theorem Resolves.unique {depth : Nat} {chain : List String} {name : String} {s : Standing}
    {deeds deeds' : List Deed} (h : Resolves f target limit depth chain name s deeds)
    (h' : Resolves f target limit depth chain name s deeds') : deeds = deeds' := by
  -- the conditions of the rules exclude each other, so both derivations end with the same one
  match h with
  | .tooDeep hc hdepth => cases h' <;> grind [Offers]
  | .paid hc hdepth hcost hsteps =>
    cases h' with
    | paid hc' hdepth' hcost' hsteps' =>
      cases Option.some.inj (hc.symm.trans hc')
      rw [hsteps.unique hsteps']
    | _ => grind [Offers, UInt32.not_lt]
  | .fallsBack hc hdepth hcost hchain hfirst hstep =>
    cases h' with
    | fallsBack hc' hdepth' hcost' hchain' hfirst' hstep' =>
      cases Option.some.inj (hc.symm.trans hc')
      cases Option.some.inj (hfirst.symm.trans hfirst')
      rw [hstep.unique hstep']
    | _ => grind [Offers, UInt32.not_lt]
  | .cycle hc hdepth hcost hchain => cases h' <;> grind [Offers, UInt32.not_lt]
  | .action ha => cases h' <;> grind [Offers]
  | .unknown hc ha => cases h' <;> grind [Offers]
termination_by structural h

/-- What comes of some names is determined. -/
theorem ResolvesAll.unique {depth : Nat} {names : List String} {s : Standing}
    {deeds deeds' : List Deed} (h : ResolvesAll f target limit depth names s deeds)
    (h' : ResolvesAll f target limit depth names s deeds') : deeds = deeds' := by
  match h with
  | .nil => cases h'; rfl
  | .cons hname hnames =>
    cases h' with
    | cons hname' hnames' =>
      have heq := hname.unique hname'
      subst heq
      rw [hnames.unique hnames']
termination_by structural h

end

/-- The names that a script yields are determined, and what comes of them. -/
theorem Follows.unique {b : Block} {s : Standing} {uses uses' : List (String × List Deed)}
    (h : Follows f target limit b s uses) (h' : Follows f target limit b s uses') :
    uses = uses' := by
  induction h generalizing uses' with
  | done => cases h'; rfl
  | use hname hnext ih =>
    cases h' with
    | use hname' hnext' =>
      have hdeeds := hname.unique hname'
      subst hdeeds
      rw [ih hnext']
  | choose hchosen hnext ihChosen ihNext =>
    cases h' with
    | choose hchosen' hnext' =>
      have heq := ihChosen hchosen'
      subst heq
      rw [ihNext hnext']

end Lucha.Combat
