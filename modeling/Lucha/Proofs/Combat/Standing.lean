import Lucha.Combat.Fight
import Lucha.Proofs.Assembly
import Mathlib.Logic.Function.Basic

/-!
# How fighters stand

What a log says about hit points and stamina can be replayed: an applied action takes the damage
from its target and the cost from the fighter whose turn it is, and an executed combo takes its cost
(`Standing.after`). A turn is tracked by a standing when both contenders are as the standing says
(`Standing.Tracks`), and then what an action or a combo does can be read off the standing
(`Move.act_eq`, `Move.perform_of_le`, `Move.perform_of_lt`).
-/

namespace Lucha.Combat

/-- A name stands for an action: the fighter declares it, and no combo of that name hides it. -/
def Offers (f : Fighter) (name : String) (a : Action) : Prop :=
  f.actions.find? name = some a ∧ f.combos.find? name = none

/-- Hit points and stamina. -/
structure Vitals where
  hp : Quantity
  stamina : Quantity
deriving DecidableEq

/-- What is left of a quantity of a fighter. -/
def Vitals.value (v : Vitals) : Stat → Quantity
  | .hp => v.hp
  | .stamina => v.stamina

/-- How the fighters of each name stand. -/
abbrev Standing := String → Vitals

namespace Standing

/-- A fighter pays stamina. -/
def pay (s : Standing) (name : String) (cost : Quantity) : Standing :=
  Function.update s name { s name with stamina := (s name).stamina.take cost }

/-- A fighter loses hit points. -/
def hurt (s : Standing) (name : String) (damage : Quantity) : Standing :=
  Function.update s name { s name with hp := (s name).hp.take damage }

/-- How the fighters stand after a deed. -/
def afterDeed (s : Standing) (actor : String) : Deed → Standing
  | .applyAction target _ _ damage cost _ _ => (s.pay actor cost).hurt target damage
  | .executeCombo _ cost _ => s.pay actor cost
  | _ => s

/-- How the fighters stand after some deeds. -/
def afterDeeds (s : Standing) (actor : String) (deeds : List Deed) : Standing :=
  deeds.foldl (fun s deed => s.afterDeed actor deed) s

/-- How the fighters stand after an event. -/
def after (s : Standing) : Event → Standing
  | .deed actor deed => s.afterDeed actor deed
  | .combatEnd .. => s

/-- How the fighters stand after some events. -/
def replay (s : Standing) (events : List Event) : Standing :=
  events.foldl after s

/-- Whether a condition holds for a fighter and its opponent. -/
def satisfies (s : Standing) (actor target : String) (c : Condition) : Bool :=
  match c.subject with
  | .actor => c.holdsFor ((s actor).value c.stat)
  | .opponent => c.holdsFor ((s target).value c.stat)

/-- A fighter that stands so. -/
def contender (s : Standing) (f : Fighter) : Contender :=
  ⟨f, (s f.name).hp, (s f.name).stamina⟩

@[simp]
theorem replay_nil (s : Standing) : s.replay [] = s := rfl

/-- Deeds are replayed one after the other. -/
theorem afterDeeds_append (s : Standing) (actor : String) (deeds more : List Deed) :
    s.afterDeeds actor (deeds ++ more) = (s.afterDeeds actor deeds).afterDeeds actor more :=
  List.foldl_append

/-- Events are replayed one after the other. -/
theorem replay_append (s : Standing) (events more : List Event) :
    s.replay (events ++ more) = (s.replay events).replay more :=
  List.foldl_append

/-- To replay the events of a turn is to replay its deeds as the fighter whose turn it is. -/
theorem replay_deeds (s : Standing) (actor : String) (deeds : List Deed) :
    s.replay (deeds.map (.deed actor)) = s.afterDeeds actor deeds :=
  List.foldl_map

variable {s : Standing} {f g : Fighter} {t : Turn}

/-- The fighter that pays loses the stamina. -/
theorem contender_pay_self (s : Standing) (f : Fighter) (cost : Quantity) :
    (s.pay f.name cost).contender f
      = { s.contender f with stamina := (s f.name).stamina.take cost } := by
  simp [contender, pay]

/-- No one else loses stamina when a fighter pays. -/
theorem contender_pay_of_ne (s : Standing) (cost : Quantity) {name : String} (h : f.name ≠ name) :
    (s.pay name cost).contender f = s.contender f := by
  simp [contender, pay, h]

/-- The fighter that is hurt takes the damage. -/
theorem contender_hurt_self (s : Standing) (f : Fighter) (damage : Quantity) :
    (s.hurt f.name damage).contender f = (s.contender f).hurt damage := by
  simp [contender, hurt, Contender.hurt]

/-- No one else takes damage when a fighter is hurt. -/
theorem contender_hurt_of_ne (s : Standing) (damage : Quantity) {name : String}
    (h : f.name ≠ name) : (s.hurt name damage).contender f = s.contender f := by
  simp [contender, hurt, h]

/-- A cost that the stamina covers is paid. -/
theorem pay?_contender_of_le {cost : Quantity} (h : cost ≤ (s f.name).stamina) :
    (s.contender f).pay? cost = some ((s.pay f.name cost).contender f) := by
  rw [contender_pay_self, Contender.pay?, contender, Quantity.pay?, if_pos h, Quantity.take,
    if_pos h]
  rfl

/-- A cost beyond the stamina is not paid at all. -/
theorem pay?_contender_of_lt {cost : Quantity} (h : (s f.name).stamina < cost) :
    (s.contender f).pay? cost = none := by
  rw [Contender.pay?, contender, Quantity.pay?_eq_none_iff.mpr h]
  rfl

/-- The hit points that damage takes are the damage, or all that are left. -/
theorem loss_contender (s : Standing) (f : Fighter) (damage : Quantity) :
    (s.contender f).loss damage = min damage (s f.name).hp := by
  have hle := Quantity.take_le (s f.name).hp damage
  have hsub := UInt32.toNat_sub_of_le _ _ hle
  have htake := Quantity.toNat_take (s f.name).hp damage
  change (s f.name).hp - (s f.name).hp.take damage = _
  -- the difference of quantities does not wrap, so it is that of natural numbers
  apply UInt32.toNat_inj.mp
  by_cases h : damage ≤ (s f.name).hp
  · have hmin : min damage (s f.name).hp = damage := if_pos h
    have hnat := UInt32.le_iff_toNat_le.mp h
    rw [hmin]
    omega
  · have hmin : min damage (s f.name).hp = (s f.name).hp := if_neg h
    have hnat := UInt32.lt_iff_toNat_lt.mp (UInt32.not_le.mp h)
    rw [hmin]
    omega

/-- Taking all that is lost is taking the damage. -/
theorem take_min (a damage : Quantity) : a.take (min damage a) = a.take damage := by
  apply UInt32.toNat_inj.mp
  rw [Quantity.toNat_take, Quantity.toNat_take]
  by_cases h : damage ≤ a
  · rw [show min damage a = damage from if_pos h]
  · have hnat := UInt32.lt_iff_toNat_lt.mp (UInt32.not_le.mp h)
    rw [show min damage a = a from if_neg h]
    omega

/-! ### What is done with actions and combos -/

/-- What comes of an action. -/
def attempt (s : Standing) (actor target : String) (a : Action) : Deed :=
  if a.isBlock then .useBlock a.name
  else if a.cost ≤ (s actor).stamina then
    .applyAction target a.name a.kind (min a.damage (s target).hp) a.cost
      ((s target).hp.take a.damage) ((s actor).stamina.take a.cost)
  else .failAction a.name a.cost (s actor).stamina

/-- Paying for a combo. -/
def execute (s : Standing) (actor : String) (c : Combo) : Deed :=
  .executeCombo c.name c.cost ((s actor).stamina.take c.cost)

/-- Falling back to a step of a combo that cannot be paid for. -/
def fallBack (s : Standing) (actor : String) (c : Combo) (step : String) : Deed :=
  .fallBack c.name c.cost (s actor).stamina step

/-- Both contenders of a turn are as the standing says. -/
structure Tracks (s : Standing) (f g : Fighter) (t : Turn) : Prop where
  actor : t.actor = s.contender f
  target : t.target = s.contender g

/-- A condition holds in a turn where it holds as the fighters stand. -/
theorem Tracks.satisfies_eq (h : s.Tracks f g t) (c : Condition) :
    t.satisfies c = s.satisfies f.name g.name c := by
  have hvalue (f : Fighter) : (s.contender f).value c.stat = (s f.name).value c.stat := by
    cases c.stat <;> rfl
  rw [Turn.satisfies, satisfies]
  cases c.subject with
  | actor => rw [Turn.subject, h.actor, hvalue]
  | opponent => rw [Turn.subject, h.target, hvalue]

end Standing

namespace Move

variable {s : Standing} {f g : Fighter} {t : Turn}

/-- Using an action. -/
theorem act_eq (hne : f.name ≠ g.name) (h : s.Tracks f g t) (a : Action) :
    ∃ t', act a t = ([s.attempt f.name g.name a], t') ∧
      (s.afterDeed f.name (s.attempt f.name g.name a)).Tracks f g t' ∧
        t'.combosLeft = t.combosLeft ∧ t'.exhausted = t.exhausted := by
  rw [act, Standing.attempt]
  by_cases hblock : a.isBlock
  · rw [if_pos hblock, if_pos hblock]
    exact ⟨t, rfl, h, rfl, rfl⟩
  · rw [if_neg hblock, if_neg hblock, h.actor]
    by_cases hcost : a.cost ≤ (s f.name).stamina
    · rw [Standing.pay?_contender_of_le hcost, if_pos hcost]
      refine ⟨{ t with
          actor := (s.pay f.name a.cost).contender f, target := t.target.hurt a.damage },
        ?_, ⟨?_, ?_⟩, rfl, rfl⟩
      · simp only [h.target, Standing.loss_contender, Standing.contender_pay_self]
        rfl
      · simp only [Standing.afterDeed, Standing.contender_hurt_of_ne _ _ hne]
      · simp only [Standing.afterDeed, h.target, Standing.contender_hurt_self,
          Standing.contender_pay_of_ne _ _ hne.symm]
        simp only [Contender.hurt, Standing.contender, Standing.take_min]
    · rw [Standing.pay?_contender_of_lt (UInt32.not_le.mp hcost), if_neg hcost]
      exact ⟨t, rfl, h, rfl, rfl⟩

/-- Doing a combo that can be paid for. -/
theorem perform_of_le (h : s.Tracks f g t) {c : Combo} (hcost : c.cost ≤ (s f.name).stamina)
    (chain : List String) (step : List String → String → Move) :
    perform c chain step t
      = (only (s.execute f.name c)).andThen (all (c.steps.map (step [])))
          { t with actor := (s.pay f.name c.cost).contender f } := by
  rw [perform, h.actor, Standing.pay?_contender_of_le hcost]
  simp only [Standing.contender_pay_self]
  rfl

/-- Doing a combo that cannot be paid for. -/
theorem perform_of_lt (h : s.Tracks f g t) {c : Combo} (hcost : (s f.name).stamina < c.cost)
    (chain : List String) (step : List String → String → Move) :
    perform c chain step t
      = if c.name ∈ chain then only (.abortCombo c.name .cycle) t
        else match c.firstStep? with
          | none => rest t
          | some first =>
            (only (s.fallBack f.name c first)).andThen (step (c.name :: chain) first) t := by
  rw [perform, h.actor, Standing.pay?_contender_of_lt hcost]
  rfl

end Move

end Lucha.Combat
