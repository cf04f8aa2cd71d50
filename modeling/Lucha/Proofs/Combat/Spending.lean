import Lucha.Proofs.Combat.Fight
import Mathlib.Algebra.GroupWithZero.Nat

/-!
# What is lost and what is paid

A deed takes nothing that is not there: the damage it tells of is no more than the hit points of its
target, and its cost no more than the stamina of the fighter whose turn it is (`Deed.Covered`). That
holds of everything that comes of a script (`Move.solvent_follow`), whatever the fighters declare,
so it holds of every deed in a log (`Bout.Fought.covered`). Hence at the end of a fight what is left
of a quantity and what the log says was taken from it add up to what there was
(`Bout.Fought.sum_damageTo_add_hp`, `Bout.Fought.sum_staminaBy_add_stamina`).
-/

namespace Lucha.Combat

/-! ### Amounts -/

namespace Event

/-- The hit points that a fighter loses by an event. -/
def damageTo (name : String) : Event → Nat
  | .deed _ (.applyAction target _ _ damage _ _ _) => if target = name then damage.toNat else 0
  | _ => 0

/-- The hit points that a fighter takes from another by an event. -/
def damageBy (name : String) : Event → Nat
  | .deed actor (.applyAction _ _ _ damage _ _ _) => if actor = name then damage.toNat else 0
  | _ => 0

/-- The stamina that a fighter pays by an event. -/
def staminaBy (name : String) : Event → Nat
  | .deed actor (.applyAction _ _ _ _ cost _ _) => if actor = name then cost.toNat else 0
  | .deed actor (.executeCombo _ cost _) => if actor = name then cost.toNat else 0
  | _ => 0

/-- The fighters that an event is about. -/
def participants : Event → List String
  | .deed actor (.applyAction target _ _ _ _ _ _) => [actor, target]
  | .deed actor _ => [actor]
  | .combatEnd .. => []

end Event

namespace Standing

@[simp]
theorem hp_pay (s : Standing) (actor : String) (cost : Quantity) (name : String) :
    (s.pay actor cost name).hp = (s name).hp := by
  by_cases h : name = actor
  · rw [h, pay, Function.update_self]
  · rw [pay, Function.update_of_ne h]

@[simp]
theorem stamina_hurt (s : Standing) (target : String) (damage : Quantity) (name : String) :
    (s.hurt target damage name).stamina = (s name).stamina := by
  by_cases h : name = target
  · rw [h, hurt, Function.update_self]
  · rw [hurt, Function.update_of_ne h]

/-- Where a fighter has the stamina to pay, what it pays and what is left add up. -/
theorem paid_add_stamina {s : Standing} {actor : String} {cost : Quantity}
    (h : cost ≤ (s actor).stamina) (name : String) :
    (if actor = name then cost.toNat else 0) + (s.pay actor cost name).stamina.toNat
      = (s name).stamina.toNat := by
  by_cases hname : actor = name
  · subst hname
    have hle := UInt32.le_iff_toNat_le.mp h
    rw [if_pos rfl, pay, Function.update_self, Quantity.toNat_take]
    omega
  · rw [if_neg hname, pay, Function.update_of_ne (Ne.symm hname), Nat.zero_add]

/-- Where a fighter has the hit points that it loses, what it loses and what is left add up. -/
theorem lost_add_hp {s : Standing} {target : String} {damage : Quantity}
    (h : damage ≤ (s target).hp) (name : String) :
    (if target = name then damage.toNat else 0) + (s.hurt target damage name).hp.toNat
      = (s name).hp.toNat := by
  by_cases hname : target = name
  · subst hname
    have hle := UInt32.le_iff_toNat_le.mp h
    rw [if_pos rfl, hurt, Function.update_self, Quantity.toNat_take]
    omega
  · rw [if_neg hname, hurt, Function.update_of_ne (Ne.symm hname), Nat.zero_add]

/-- What every event takes from a quantity, and what is left of it after them, add up to what there
was. -/
theorem sum_add_replay {s : Standing} (left : Standing → Nat) {amount : Event → Nat}
    {events : List Event}
    (h : ∀ earlier event later, events = earlier ++ event :: later →
      amount event + left ((s.replay earlier).after event) = left (s.replay earlier)) :
    (events.map amount).sum + left (s.replay events) = left s := by
  induction events generalizing s with
  | nil => exact Nat.zero_add _
  | cons event events ih =>
    have hfirst : amount event + left (s.after event) = left s := h [] event events rfl
    have hrest : (events.map amount).sum + left ((s.after event).replay events)
        = left (s.after event) :=
      ih fun earlier next later hsplit =>
        h (event :: earlier) next later (congrArg (event :: ·) hsplit)
    rw [List.map_cons, List.sum_cons, Nat.add_assoc]
    change amount event + (_ + left ((s.after event).replay events)) = _
    rw [hrest, hfirst]

end Standing

/-! ### Deeds that take nothing that is not there -/

/-- A deed takes nothing that is not there, and hit points from nobody but the target. -/
def Deed.Covered (s : Standing) (actor target : String) : Deed → Prop
  | .applyAction hit _ _ damage cost _ _ =>
    hit = target ∧ damage ≤ (s target).hp ∧ cost ≤ (s actor).stamina
  | .executeCombo _ cost _ => cost ≤ (s actor).stamina
  | _ => True

/-- Deeds one after the other take nothing that is not there. -/
def AllCovered (actor target : String) : Standing → List Deed → Prop
  | _, [] => True
  | s, deed :: deeds =>
    deed.Covered s actor target ∧ AllCovered actor target (s.afterDeed actor deed) deeds

/-- Deeds one after the other take nothing that is not there if the first ones do not, and the
others do not where the first ones lead to. -/
theorem allCovered_append {actor target : String} {s : Standing} {deeds more : List Deed} :
    AllCovered actor target s (deeds ++ more) ↔ AllCovered actor target s deeds ∧
      AllCovered actor target (s.afterDeeds actor deeds) more := by
  induction deeds generalizing s with
  | nil => simp [AllCovered, Standing.afterDeeds]
  | cons deed deeds ih => exact (and_congr_right fun _ => ih).trans and_assoc.symm

namespace Deed.Covered

variable {s : Standing} {actor target : String} {deed : Deed}

/-- A covered deed leaves every fighter the hit points that it does not take. -/
theorem damageTo_add_hp (h : deed.Covered s actor target) (name : String) :
    (Event.deed actor deed).damageTo name + (s.afterDeed actor deed name).hp.toNat
      = (s name).hp.toNat := by
  cases deed with
  | applyAction hit action kind damage cost targetHp actorStamina =>
    obtain ⟨rfl, hdamage, -⟩ := h
    have hlost : damage ≤ (s.pay actor cost hit).hp := (s.hp_pay actor cost hit).symm ▸ hdamage
    exact (Standing.lost_add_hp hlost name).trans (congrArg _ (s.hp_pay actor cost name))
  | executeCombo combo cost actorStamina =>
    exact (Nat.zero_add _).trans (congrArg _ (s.hp_pay actor cost name))
  | _ => exact Nat.zero_add _

/-- A covered deed leaves every fighter the stamina that it does not pay. -/
theorem staminaBy_add_stamina (h : deed.Covered s actor target) (name : String) :
    (Event.deed actor deed).staminaBy name + (s.afterDeed actor deed name).stamina.toNat
      = (s name).stamina.toNat := by
  cases deed with
  | applyAction hit action kind damage cost targetHp actorStamina =>
    simp only [Standing.afterDeed, Standing.stamina_hurt]
    exact Standing.paid_add_stamina h.2.2 name
  | executeCombo combo cost actorStamina => exact Standing.paid_add_stamina h name
  | _ => exact Nat.zero_add _

end Deed.Covered

namespace Move

/-- What comes of a move is told, and its deeds take nothing that is not there. -/
structure Solvent (f g : Fighter) (m : Move) : Prop where
  told : m.Told f g
  covered : ∀ ⦃s t⦄, s.Tracks f g t → AllCovered f.name g.name s (m t).1

variable {f g : Fighter} {m m' : Move}

theorem solvent_rest : rest.Solvent f g := ⟨told_rest, fun _ _ _ => trivial⟩

/-- A deed that takes nothing. -/
theorem solvent_only {deed : Deed} (h : ∀ s : Standing, s.afterDeed f.name deed = s)
    (hdeed : ∀ s, deed.Covered s f.name g.name) : (only deed).Solvent f g :=
  ⟨told_only h, fun _ _ _ => ⟨hdeed _, trivial⟩⟩

/-- One solvent move after the other is solvent, since the first one tells where the second one
starts. -/
theorem Solvent.andThen (h : m.Solvent f g) (h' : m'.Solvent f g) : (m.andThen m').Solvent f g :=
  ⟨h.told.andThen h'.told,
    fun _ _ ht => allCovered_append.mpr ⟨h.covered ht, h'.covered (h.told ht)⟩⟩

/-- Solvent moves in a row are solvent. -/
theorem Solvent.all {moves : List Move} (h : ∀ m ∈ moves, m.Solvent f g) :
    (all moves).Solvent f g :=
  all_induction solvent_rest Solvent.andThen h

/-- What comes of an action takes nothing that is not there. -/
theorem covered_attempt (s : Standing) (actor target : String) (a : Action) :
    (s.attempt actor target a).Covered s actor target := by
  rw [Standing.attempt]
  split
  · trivial
  · split
    · rename_i hcost
      refine ⟨rfl, ?_, hcost⟩
      by_cases h : a.damage ≤ (s target).hp
      · rwa [show min a.damage (s target).hp = a.damage from if_pos h]
      · rw [show min a.damage (s target).hp = (s target).hp from if_neg h]
        exact UInt32.le_refl _
    · trivial

/-- An action takes no more damage and no more stamina than there is. -/
theorem solvent_act (hne : f.name ≠ g.name) (a : Action) : (act a).Solvent f g := by
  refine ⟨told_act hne a, fun s t ht => ?_⟩
  obtain ⟨t', hact, -⟩ := act_eq hne ht a
  rw [hact]
  exact ⟨covered_attempt s f.name g.name a, trivial⟩

theorem Solvent.enter (h : m.Solvent f g) (c : Combo) : (enter c m).Solvent f g := by
  refine ⟨h.told.enter c, fun s t ht => ?_⟩
  rw [Move.enter]
  split
  · exact ⟨trivial, trivial⟩
  · exact h.covered ⟨ht.actor, ht.target⟩

/-- A combo is paid for only with stamina that is there; else its fallback is followed. -/
theorem solvent_perform (hne : f.name ≠ g.name) (c : Combo) (chain : List String)
    {step : List String → String → Move} (h : ∀ chain name, (step chain name).Solvent f g) :
    (perform c chain step).Solvent f g := by
  refine ⟨told_perform hne c chain fun chain name => (h chain name).told, fun s t ht => ?_⟩
  by_cases hcost : c.cost ≤ (s f.name).stamina
  · have hsteps : (all (c.steps.map (step []))).Solvent f g :=
      .all (List.forall_mem_map.mpr fun name _ => h [] name)
    rw [perform_of_le ht hcost]
    exact ⟨hcost, hsteps.covered (tracks_execute hne ht c)⟩
  · rw [perform_of_lt ht (UInt32.not_le.mp hcost)]
    split
    · exact ⟨trivial, trivial⟩
    · split
      · trivial
      · rename_i first hfirst
        exact ⟨trivial, (h (c.name :: chain) first).covered ht⟩

theorem Solvent.named (hne : f.name ≠ g.name) (name : String) {ofCombo : Combo → Move}
    (h : ∀ c, (ofCombo c).Solvent f g) : (named name ofCombo).Solvent f g := by
  refine ⟨.named hne name fun c => (h c).told, fun s t ht => ?_⟩
  rw [Move.named]
  split
  · trivial
  · split
    · exact (h _).covered ht
    · split
      · exact (solvent_act hne _).covered ht
      · exact ⟨trivial, trivial⟩

theorem Solvent.branch (h : m.Solvent f g) (h' : m'.Solvent f g) (condition : Condition) :
    (branch condition m m').Solvent f g := by
  refine ⟨h.told.branch h'.told condition, fun s t ht => ?_⟩
  rw [Move.branch]
  split
  · exact h.covered ht
  · exact h'.covered ht

/-- Solvency is kept by all that moves are made of, so every script is followed by solvent moves. -/
theorem closed_solvent (hne : f.name ≠ g.name) : Closed (Solvent f g) where
  rest := solvent_rest
  andThen := Solvent.andThen
  branch condition _ _ h h' := h.branch h' condition
  enter c _ h := h.enter c
  tooDeep _ := solvent_only (fun _ => rfl) fun _ => trivial
  perform := solvent_perform hne
  named name _ _ := .named hne name

/-- What comes of a script takes nothing that is not there. -/
theorem solvent_follow (hne : f.name ≠ g.name) (levels : Nat) (b : Block) :
    (follow levels b).Solvent f g :=
  (closed_solvent hne).follow levels b

end Move

/-! ### Turns and fights -/

namespace Bout

variable {b : Bout} {s : Standing}

/-- The deeds of a turn take nothing that is not there. -/
theorem allCovered_of_turn? (h : b.Distinct) {slot : Slot} {turn : TakenTurn}
    (hturn : b.turn? slot s = some turn) :
    AllCovered (b.fighter slot.side).name (b.fighter slot.side.opposite).name s turn.deeds := by
  obtain ⟨script, hscript, rfl⟩ := Option.map_eq_some_iff.mp hturn
  have hstart : AllCovered (b.fighter slot.side).name (b.fighter slot.side.opposite).name s
      (startDeeds b.rules slot.round) := by
    rw [startDeeds]
    split
    · exact ⟨trivial, trivial⟩
    · trivial
  rw [turnEnd_of_script hscript]
  refine allCovered_append.mpr ⟨hstart, ?_⟩
  rw [Standing.afterDeeds_startDeeds]
  exact (Move.solvent_follow (h.ne slot.side) b.rules.comboDepth.toNat script).covered
    (b.tracks_turnStart slot s)

end Bout

namespace Bout.Fought

variable {b : Bout} {p : Program} {finished : Finished}

/-- A deed in the log is one of a contender, and it takes nothing that is not there when it is
done. -/
theorem covered (h : b.Fought p finished) (hdistinct : b.Distinct) {earlier later : List Event}
    {actor : String} {deed : Deed}
    (hsplit : finished.log.events = earlier ++ .deed actor deed :: later) :
    ∃ side, actor = (b.fighter side).name ∧
      deed.Covered ((opening p).replay earlier) actor (b.fighter side.opposite).name := by
  obtain ⟨slot, s, turn, done, todo, hturn, rfl, hdeeds, hreplay⟩ := h.exists_turn? hsplit
  have hactor := (Bout.of_turn? hturn).2
  have hcovered := Bout.allCovered_of_turn? hdistinct hturn
  rw [hdeeds, allCovered_append, ← hactor] at hcovered
  exact ⟨slot.side, hactor, hreplay ▸ hcovered.2.1⟩

/-- Nobody but the contenders takes part in what is logged. -/
theorem name_of_mem_participants (h : b.Fought p finished) (hdistinct : b.Distinct)
    {event : Event} (hevent : event ∈ finished.log.events) {name : String}
    (hname : name ∈ event.participants) : ∃ side, name = (b.fighter side).name := by
  obtain ⟨earlier, later, hsplit⟩ := List.append_of_mem hevent
  cases event with
  | combatEnd => cases hname
  | deed actor deed =>
    obtain ⟨side, hactor, hcovered⟩ := h.covered hdistinct hsplit
    cases deed with
    | applyAction hit =>
      obtain rfl | hhit := List.mem_cons.mp hname
      · exact ⟨side, hactor⟩
      · exact ⟨side.opposite, (List.mem_singleton.mp hhit).trans hcovered.1⟩
    | _ => exact ⟨side, (List.mem_singleton.mp hname).trans hactor⟩

/-- What a fighter has left and what the log says it lost are the hit points that it had. -/
theorem sum_damageTo_add_hp (h : b.Fought p finished) (hdistinct : b.Distinct) (name : String) :
    (finished.log.events.map (Event.damageTo name)).sum
        + ((opening p).replay finished.log.events name).hp.toNat
      = (opening p name).hp.toNat := by
  refine Standing.sum_add_replay (fun s => (s name).hp.toNat) fun earlier event later hsplit => ?_
  cases event with
  | deed actor deed =>
    obtain ⟨side, -, hcovered⟩ := h.covered hdistinct hsplit
    exact hcovered.damageTo_add_hp name
  | combatEnd => exact Nat.zero_add _

/-- What a fighter has left and what the log says it paid are the stamina that it had. -/
theorem sum_staminaBy_add_stamina (h : b.Fought p finished) (hdistinct : b.Distinct)
    (name : String) :
    (finished.log.events.map (Event.staminaBy name)).sum
        + ((opening p).replay finished.log.events name).stamina.toNat
      = (opening p name).stamina.toNat := by
  refine Standing.sum_add_replay (fun s => (s name).stamina.toNat)
    fun earlier event later hsplit => ?_
  cases event with
  | deed actor deed =>
    obtain ⟨side, -, hcovered⟩ := h.covered hdistinct hsplit
    exact hcovered.staminaBy_add_stamina name
  | combatEnd => exact Nat.zero_add _

/-- What a contender takes from others is what its opponent loses. -/
theorem sum_damageBy_eq (h : b.Fought p finished) (hdistinct : b.Distinct) (side : Side) :
    (finished.log.events.map (Event.damageBy (b.fighter side).name)).sum
      = (finished.log.events.map (Event.damageTo (b.fighter side.opposite).name)).sum := by
  refine congrArg List.sum (List.map_congr_left fun event hmem => ?_)
  obtain ⟨earlier, later, hsplit⟩ := List.append_of_mem hmem
  cases event with
  | combatEnd => rfl
  | deed actor deed =>
    obtain ⟨actorSide, rfl, hcovered⟩ := h.covered hdistinct hsplit
    cases deed with
    | applyAction hit action kind damage cost targetHp actorStamina =>
      obtain ⟨rfl, -⟩ := hcovered
      have hnames := hdistinct.ne side
      obtain rfl | rfl := actorSide.eq_or_eq_opposite side
      · simp only [Event.damageBy, Event.damageTo, if_pos]
      · -- a deed of the opponent takes nothing from the opponent
        simp only [Event.damageBy, Event.damageTo, Side.opposite_opposite, if_neg hnames,
          if_neg hnames.symm]
    | _ => rfl

end Bout.Fought

end Lucha.Combat
