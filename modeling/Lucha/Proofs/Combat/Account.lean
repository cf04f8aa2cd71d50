import Lucha.Proofs.Combat.Telling

/-!
# What the deeds of a turn say

A deed is justified when what it says agrees with the fighter as declared and with how both
contenders stand before it and after it (`Justified`). Every move is faithful: its deeds are
justified one after the other, and they tell what comes of it (`Move.faithful_follow`).
-/

namespace Lucha.Combat

/-- What a deed of a fighter says agrees with its declarations and with how it and its target
stand. -/
def Justified (f : Fighter) (target : String) (s : Standing) (deed : Deed) : Prop :=
  match deed with
  | .startTurn _ => True
  | .applyAction hit name kind damage cost targetHp actorStamina =>
    hit = target ∧
      (∃ a, Offers f name a ∧ a.kind ≠ .block ∧ kind = a.kind ∧ cost = a.cost ∧
        damage = min a.damage (s target).hp) ∧
      cost ≤ (s f.name).stamina ∧ targetHp = (s.afterDeed f.name deed target).hp ∧
      actorStamina = (s.afterDeed f.name deed f.name).stamina
  | .failAction name cost stamina =>
    (∃ a, Offers f name a ∧ a.kind ≠ .block ∧ cost = a.cost) ∧
      stamina = (s f.name).stamina ∧ stamina < cost
  | .executeCombo name cost actorStamina =>
    (∃ c, f.combos.find? name = some c ∧ cost = c.cost) ∧ cost ≤ (s f.name).stamina ∧
      actorStamina = (s.afterDeed f.name deed f.name).stamina
  | .fallBack name cost stamina fallback =>
    (∃ c, f.combos.find? name = some c ∧ cost = c.cost ∧ c.firstStep? = some fallback) ∧
      stamina = (s f.name).stamina ∧ stamina < cost
  | .useBlock name => ∃ a, Offers f name a ∧ a.kind = .block
  | .failName name => f.actions.find? name = none ∧ f.combos.find? name = none
  | .abortCombo name reason =>
    ∃ c, f.combos.find? name = some c ∧ (reason = .cycle → (s f.name).stamina < c.cost)

/-- The deeds are justified one after the other. -/
def Accounts (f : Fighter) (target : String) : Standing → List Deed → Prop
  | _, [] => True
  | s, deed :: deeds =>
    Justified f target s deed ∧ Accounts f target (s.afterDeed f.name deed) deeds

/-- Deeds are justified one after the other: the later ones where the earlier ones lead. -/
theorem accounts_append {f : Fighter} {target : String} {s : Standing} {deeds more : List Deed} :
    Accounts f target s (deeds ++ more) ↔
      Accounts f target s deeds ∧ Accounts f target (s.afterDeeds f.name deeds) more := by
  induction deeds generalizing s with
  | nil => simp [Accounts, Standing.afterDeeds]
  | cons deed deeds ih => exact (and_congr_right fun _ => ih).trans and_assoc.symm

namespace Move

/-- The deeds of a move are justified, and what comes of it is what they say. -/
def Faithful (f g : Fighter) (m : Move) : Prop :=
  ∀ ⦃s t⦄, s.Tracks f g t →
    Accounts f g.name s (m t).1 ∧ (s.afterDeeds f.name (m t).1).Tracks f g (m t).2

variable {f g : Fighter} {m m' : Move}

theorem Faithful.told (h : m.Faithful f g) : m.Told f g := fun _ _ ht => (h ht).2

/-- To do nothing is justified. -/
theorem faithful_rest : rest.Faithful f g := fun _ _ h => ⟨trivial, told_rest h⟩

/-- A deed that is justified and says that nothing changes. -/
theorem accounts_only {s : Standing} {t : Turn} {deed : Deed} (h : s.Tracks f g t)
    (hdeed : Justified f g.name s deed) (hs : ∀ s : Standing, s.afterDeed f.name deed = s) :
    Accounts f g.name s (only deed t).1 ∧
      (s.afterDeeds f.name (only deed t).1).Tracks f g (only deed t).2 :=
  ⟨⟨hdeed, trivial⟩, told_only hs h⟩

/-- One move after the other is justified if both are. -/
theorem Faithful.andThen (h : m.Faithful f g) (h' : m'.Faithful f g) :
    (m.andThen m').Faithful f g := by
  intro s t ht
  obtain ⟨hfirst, htracks⟩ := h ht
  exact ⟨accounts_append.mpr ⟨hfirst, (h' htracks).1⟩, h.told.andThen h'.told ht⟩

/-- Moves that are all justified are so one after the other. -/
theorem Faithful.all {moves : List Move} (h : ∀ m ∈ moves, m.Faithful f g) :
    (all moves).Faithful f g :=
  all_induction faithful_rest Faithful.andThen h

/-- What comes of an action is justified. -/
theorem justified_attempt (hne : f.name ≠ g.name) {a : Action} (ha : Offers f a.name a)
    (s : Standing) : Justified f g.name s (s.attempt f.name g.name a) := by
  rw [Standing.attempt]
  by_cases hblock : a.isBlock
  · rw [if_pos hblock]
    exact ⟨a, ha, of_decide_eq_true hblock⟩
  · have hkind : a.kind ≠ .block := fun heq => hblock (decide_eq_true heq)
    rw [if_neg hblock]
    split
    · rename_i hcost
      refine ⟨rfl, ⟨a, ha, hkind, rfl, rfl, rfl⟩, hcost, ?_, ?_⟩
      · simp [Standing.afterDeed, Standing.hurt, Standing.pay, hne.symm, Standing.take_min]
      · simp [Standing.afterDeed, Standing.hurt, Standing.pay, hne]
    · rename_i hcost
      exact ⟨⟨a, ha, hkind, rfl⟩, rfl, UInt32.not_le.mp hcost⟩

/-- An attack or a block is justified by the action that the fighter offers. -/
theorem faithful_act (hne : f.name ≠ g.name) {a : Action} (ha : Offers f a.name a) :
    (act a).Faithful f g := by
  intro s t h
  refine ⟨?_, told_act hne a h⟩
  obtain ⟨t', hact, -⟩ := act_eq hne h a
  rw [hact]
  exact ⟨justified_attempt hne ha s, trivial⟩

/-- A combo that is entered is justified, also where the budget forbids it. -/
theorem Faithful.enter {c : Combo} (hc : f.combos.find? c.name = some c) (h : m.Faithful f g) :
    (enter c m).Faithful f g := by
  intro s t ht
  refine ⟨?_, h.told.enter c ht⟩
  rw [Move.enter]
  split
  · exact ⟨⟨c, hc, by simp⟩, trivial⟩
  · rename_i left hleft
    have htracks : s.Tracks f g { t with combosLeft := left } := ⟨ht.actor, ht.target⟩
    exact (h htracks).1

/-- A combo is justified, whether it is paid for, falls back or comes to nothing. -/
theorem faithful_perform (hne : f.name ≠ g.name) {c : Combo} (hc : f.combos.find? c.name = some c)
    (chain : List String) {step : List String → String → Move}
    (h : ∀ chain name, (step chain name).Faithful f g) : (perform c chain step).Faithful f g := by
  intro s t ht
  refine ⟨?_, told_perform hne c chain (fun chain name => (h chain name).told) ht⟩
  by_cases hcost : c.cost ≤ (s f.name).stamina
  · have hsteps : (all (c.steps.map (step []))).Faithful f g :=
      .all (List.forall_mem_map.mpr fun name _ => h [] name)
    rw [perform_of_le ht hcost]
    refine ⟨⟨⟨c, hc, rfl⟩, hcost, ?_⟩, (hsteps (tracks_execute hne ht c)).1⟩
    simp [Standing.execute, Standing.afterDeed, Standing.pay]
  · have hlt := UInt32.not_le.mp hcost
    rw [perform_of_lt ht hlt]
    split
    · exact ⟨⟨c, hc, fun _ => hlt⟩, trivial⟩
    · split
      · trivial
      · rename_i first hfirst
        exact ⟨⟨⟨c, hc, rfl, hfirst⟩, rfl, hlt⟩, (h (c.name :: chain) first ht).1⟩

/-- What a name stands for is justified, if it is so for every combo of the fighter. -/
theorem Faithful.named (hne : f.name ≠ g.name) (hkeyed : f.Keyed) (name : String)
    {ofCombo : Combo → Move}
    (h : ∀ c, f.combos.find? c.name = some c → (ofCombo c).Faithful f g) :
    (named name ofCombo).Faithful f g := by
  intro s t ht
  have hfighter : t.actor.fighter = f := congrArg Contender.fighter ht.actor
  rw [Move.named, hfighter]
  split
  · exact faithful_rest ht
  · cases hcombo : f.combos.find? name with
    | some c =>
      have hname := hkeyed.combos hcombo
      exact h c (hname ▸ hcombo) ht
    | none =>
      cases haction : f.actions.find? name with
      | some a =>
        have hname := hkeyed.actions haction
        exact faithful_act hne ⟨hname ▸ haction, hname ▸ hcombo⟩ ht
      | none => exact accounts_only ht ⟨haction, hcombo⟩ fun _ => rfl

/-- Resolving a name is faithful, by induction on the levels that are left. -/
theorem faithful_resolve (hne : f.name ≠ g.name) (hkeyed : f.Keyed) (levels : Nat)
    (chain : List String) (name : String) : (resolve levels chain name).Faithful f g := by
  induction levels generalizing chain name with
  | zero =>
    refine .named hne hkeyed name fun c hc => .enter hc fun s t ht => ?_
    exact accounts_only ht ⟨c, hc, by simp⟩ fun _ => rfl
  | succ levels ih =>
    exact .named hne hkeyed name fun c hc => .enter hc (faithful_perform hne hc chain ih)

/-- A choice is justified if both branches are. -/
theorem Faithful.branch (h : m.Faithful f g) (h' : m'.Faithful f g) (condition : Condition) :
    (branch condition m m').Faithful f g := by
  intro s t ht
  rw [Move.branch]
  split
  · exact h ht
  · exact h' ht

/-- Following a block is faithful. -/
theorem faithful_follow (hne : f.name ≠ g.name) (hkeyed : f.Keyed) (levels : Nat) (b : Block) :
    (follow levels b).Faithful f g := by
  induction b with
  | done => exact faithful_rest
  | use name span next ih => exact (faithful_resolve hne hkeyed levels [] name).andThen ih
  | choose condition yes no next hyes hno hnext => exact (hyes.branch hno condition).andThen hnext

end Move

end Lucha.Combat
