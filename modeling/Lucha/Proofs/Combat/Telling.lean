import Lucha.Proofs.Combat.Closure
import Lucha.Proofs.Combat.Standing

/-!
# What the deeds of a turn tell

Hit points and stamina change with the deeds of a turn and in no other way: replaying the deeds of a
move gives the turn that the move leads to (`Move.Told`). This holds of everything that comes of a
script (`Move.told_follow`), whatever the fighters declare, as long as the names of the two differ.
-/

namespace Lucha.Combat.Move

/-- What comes of a move is what its deeds say. -/
def Told (f g : Fighter) (m : Move) : Prop :=
  ∀ ⦃s : Standing⦄ ⦃t⦄, s.Tracks f g t → (s.afterDeeds f.name (m t).1).Tracks f g (m t).2

variable {f g : Fighter} {m m' : Move}

theorem told_rest : rest.Told f g := fun _ _ h => h

/-- A deed that says that nothing changes. -/
theorem told_only {deed : Deed} (h : ∀ s : Standing, s.afterDeed f.name deed = s) :
    (only deed).Told f g := by
  intro s t ht
  change (s.afterDeed f.name deed).Tracks f g t
  rwa [h]

/-- Two moves in a row are told by the deeds of the first and then those of the second. -/
theorem Told.andThen (h : m.Told f g) (h' : m'.Told f g) : (m.andThen m').Told f g := by
  intro s t ht
  have htracks := h' (h ht)
  rw [← Standing.afterDeeds_append] at htracks
  exact htracks

/-- Moves in a row are told if each one is. -/
theorem Told.all {moves : List Move} (h : ∀ m ∈ moves, m.Told f g) : (all moves).Told f g :=
  all_induction told_rest Told.andThen h

/-- The deed of an action tells the damage and the cost. -/
theorem told_act (hne : f.name ≠ g.name) (a : Action) : (act a).Told f g := by
  intro s t h
  obtain ⟨t', hact, htracks, -⟩ := act_eq hne h a
  rw [hact]
  exact htracks

/-- Entering a combo changes neither contender. -/
theorem Told.enter (h : m.Told f g) (c : Combo) : (enter c m).Told f g := by
  intro s t ht
  rw [Move.enter]
  split
  · exact ⟨ht.actor, ht.target⟩
  · exact h ⟨ht.actor, ht.target⟩

/-- Where the payment for a combo leaves the contenders. -/
theorem tracks_execute (hne : f.name ≠ g.name) {s : Standing} {t : Turn} (h : s.Tracks f g t)
    (c : Combo) :
    (s.pay f.name c.cost).Tracks f g { t with actor := (s.pay f.name c.cost).contender f } :=
  ⟨rfl, h.target.trans (Standing.contender_pay_of_ne s c.cost hne.symm).symm⟩

/-- The deed of an executed combo tells its cost, and the steps tell the rest. -/
theorem told_perform (hne : f.name ≠ g.name) (c : Combo) (chain : List String)
    {step : List String → String → Move} (h : ∀ chain name, (step chain name).Told f g) :
    (perform c chain step).Told f g := by
  intro s t ht
  by_cases hcost : c.cost ≤ (s f.name).stamina
  · have hsteps : (all (c.steps.map (step []))).Told f g :=
      .all (List.forall_mem_map.mpr fun name _ => h [] name)
    rw [perform_of_le ht hcost]
    exact hsteps (tracks_execute hne ht c)
  · rw [perform_of_lt ht (UInt32.not_le.mp hcost)]
    split
    · exact ht
    · split
      · exact ht
      · rename_i first hfirst
        exact h (c.name :: chain) first ht

theorem Told.named (hne : f.name ≠ g.name) (name : String) {ofCombo : Combo → Move}
    (h : ∀ c, (ofCombo c).Told f g) : (named name ofCombo).Told f g := by
  intro s t ht
  rw [Move.named]
  split
  · exact ht
  · split
    · exact h _ ht
    · split
      · exact told_act hne _ ht
      · exact ht

theorem Told.branch (h : m.Told f g) (h' : m'.Told f g) (condition : Condition) :
    (branch condition m m').Told f g := by
  intro s t ht
  rw [Move.branch]
  split
  · exact h ht
  · exact h' ht

/-- To be told is kept by all that moves are made of, so the deeds of every script tell what comes
of it. -/
theorem closed_told (hne : f.name ≠ g.name) : Closed (Told f g) where
  rest := told_rest
  andThen := Told.andThen
  branch condition _ _ h h' := h.branch h' condition
  enter c _ h := h.enter c
  tooDeep _ := told_only fun _ => rfl
  perform := told_perform hne
  named name _ _ := .named hne name

/-- What comes of a script is told. -/
theorem told_follow (hne : f.name ≠ g.name) (levels : Nat) (b : Block) :
    (follow levels b).Told f g :=
  (closed_told hne).follow levels b

end Lucha.Combat.Move
