import Lucha.Combat.Move

/-!
# Properties of moves

A property of moves is closed if the ways to put moves together keep it (`Move.Closed`). Everything
that comes of a script is put together in these ways, so it has every closed property
(`Move.Closed.follow`). One of them is that the contenders stay the fighters that they are
(`Move.keepsFighters_follow`).
-/

namespace Lucha.Combat.Move

/-- What holds of doing nothing and of two moves in a row holds of all moves in a row. -/
theorem all_induction {P : Move → Prop} (hrest : P rest)
    (handThen : ∀ {m m'}, P m → P m' → P (m.andThen m')) {moves : List Move}
    (h : ∀ m ∈ moves, P m) : P (all moves) := by
  induction moves with
  | nil => exact hrest
  | cons m moves ih =>
    obtain ⟨hm, hmoves⟩ := List.forall_mem_cons.mp h
    exact handThen hm (ih hmoves)

/-- The ways to put moves together keep a property. -/
structure Closed (P : Move → Prop) : Prop where
  rest : P rest
  andThen {m m' : Move} : P m → P m' → P (m.andThen m')
  branch (condition : Condition) {m m' : Move} : P m → P m' → P (branch condition m m')
  enter (c : Combo) {m : Move} : P m → P (enter c m)
  tooDeep (c : Combo) : P (only (.abortCombo c.name .depthLimit))
  perform (c : Combo) (chain : List String) {step : List String → String → Move} :
    (∀ chain name, P (step chain name)) → P (perform c chain step)
  /-- What is done for a combo does not depend on where the combo is written. -/
  named (name : String) {ofCombo : Combo → Move} :
    (∀ c span, ofCombo { c with span } = ofCombo c) → (∀ c, P (ofCombo c)) →
      P (named name ofCombo)

namespace Closed

variable {P : Move → Prop}

/-- What comes of a name has a closed property, by induction on the levels that are left. -/
theorem resolve (h : Closed P) (levels : Nat) (chain : List String) (name : String) :
    P (resolve levels chain name) := by
  induction levels generalizing chain name with
  | zero => exact h.named name (fun _ _ => rfl) fun c => h.enter c (h.tooDeep c)
  | succ levels ih =>
    exact h.named name (fun _ _ => rfl) fun c => h.enter c (h.perform c chain ih)

/-- What comes of a script has a closed property. -/
theorem follow (h : Closed P) (levels : Nat) (b : Block) : P (follow levels b) := by
  induction b with
  | done => exact h.rest
  | use name span next ih => exact h.andThen (h.resolve levels [] name) ih
  | choose condition yes no next hyes hno hnext =>
    exact h.andThen (h.branch condition hyes hno) hnext

end Closed

/-! ### The contenders -/

/-- The contenders stay the fighters that they are. -/
def KeepsFighters (m : Move) : Prop :=
  ∀ t, (m t).2.actor.fighter = t.actor.fighter ∧ (m t).2.target.fighter = t.target.fighter

variable {m m' : Move}

/-- To do nothing leaves the fighters as declared. -/
theorem keepsFighters_rest : rest.KeepsFighters := fun _ => ⟨rfl, rfl⟩

theorem keepsFighters_only (deed : Deed) : (only deed).KeepsFighters := fun _ => ⟨rfl, rfl⟩

/-- Two moves in a row leave the fighters as declared if both do. -/
theorem KeepsFighters.andThen (h : m.KeepsFighters) (h' : m'.KeepsFighters) :
    (m.andThen m').KeepsFighters :=
  fun t => ⟨(h' (m t).2).1.trans (h t).1, (h' (m t).2).2.trans (h t).2⟩

/-- A contender who pays is the same fighter as before. -/
theorem fighter_of_pay? {c c' : Contender} {cost : Quantity} (h : c.pay? cost = some c') :
    c'.fighter = c.fighter := by
  obtain ⟨stamina, -, rfl⟩ := Option.map_eq_some_iff.mp h
  rfl

/-- An attack or a block changes what a contender has left, and not the fighter. -/
theorem keepsFighters_act (a : Action) : (act a).KeepsFighters := by
  intro t
  rw [act]
  split
  · exact ⟨rfl, rfl⟩
  · split
    · exact ⟨rfl, rfl⟩
    · rename_i actor hpay
      exact ⟨fighter_of_pay? hpay, rfl⟩

/-- To enter a combo leaves the fighters as declared if what follows does. -/
theorem KeepsFighters.enter (h : m.KeepsFighters) (c : Combo) : (enter c m).KeepsFighters := by
  intro t
  rw [Move.enter]
  split
  · exact ⟨rfl, rfl⟩
  · exact h _

/-- A combo leaves the fighters as declared if its steps do. -/
theorem keepsFighters_perform (c : Combo) (chain : List String)
    {step : List String → String → Move} (h : ∀ chain name, (step chain name).KeepsFighters) :
    (perform c chain step).KeepsFighters := by
  intro t
  rw [perform]
  split
  · rename_i actor hpay
    have hsteps : (all (c.steps.map (step []))).KeepsFighters :=
      all_induction keepsFighters_rest .andThen (List.forall_mem_map.mpr fun name _ => h [] name)
    have hkeeps := (keepsFighters_only (.executeCombo c.name c.cost actor.stamina)).andThen hsteps
      { t with actor }
    exact ⟨hkeeps.1.trans (fighter_of_pay? hpay), hkeeps.2⟩
  · split
    · exact ⟨rfl, rfl⟩
    · split
      · exact ⟨rfl, rfl⟩
      · exact (keepsFighters_only _).andThen (h _ _) t

/-- What a name stands for leaves the fighters as declared if all combos do. -/
theorem KeepsFighters.named (name : String) {ofCombo : Combo → Move}
    (h : ∀ c, (ofCombo c).KeepsFighters) : (named name ofCombo).KeepsFighters := by
  intro t
  rw [Move.named]
  split
  · exact ⟨rfl, rfl⟩
  · split
    · exact h _ t
    · split
      · exact keepsFighters_act _ t
      · exact ⟨rfl, rfl⟩

/-- A choice leaves the fighters as declared if both branches do. -/
theorem KeepsFighters.branch (h : m.KeepsFighters) (h' : m'.KeepsFighters)
    (condition : Condition) : (branch condition m m').KeepsFighters := by
  intro t
  rw [Move.branch]
  split
  · exact h t
  · exact h' t

/-- So all moves that scripts are made of leave the fighters as declared. -/
theorem closed_keepsFighters : Closed KeepsFighters where
  rest := keepsFighters_rest
  andThen := .andThen
  branch condition _ _ h h' := h.branch h' condition
  enter c _ h := h.enter c
  tooDeep _ := keepsFighters_only _
  perform := keepsFighters_perform
  named name _ _ := .named name

/-- Following a script makes nobody another fighter. -/
theorem keepsFighters_follow (levels : Nat) (b : Block) : (follow levels b).KeepsFighters :=
  closed_keepsFighters.follow levels b

end Lucha.Combat.Move
