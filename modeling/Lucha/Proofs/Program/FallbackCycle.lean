import Lucha.Proofs.Program.Printable
import Lucha.Proofs.Program.Warning
import Mathlib.Data.Finset.Card
import Mathlib.Logic.Function.Iterate

/-!
# Combos that fall back into themselves

From a combo one comes to its first step, provided that is a combo too, and from there on
(`Fighter.comboAfter?`). There are finitely many combos, so either this ends, or it comes back to
where it began, or it comes into a loop that does not lead back there, and only one of these happens
(`Fighter.not_returns_iff`). The combos that one comes back to are those that are found to fall back
into themselves (`Fighter.fallsBackIntoItself_iff_returns`), and for each of them there is one
warning (`Fighter.fallbackCycle_exact`).
-/

namespace Lucha

/-- The warning is about a combo that falls back into itself. -/
def Warning.isFallbackCycle : Warning → Bool
  | .fallbackCycle _ _ _ => true
  | _ => false

/-- The warning is about the combo of this name, that it falls back into itself. -/
def Warning.isFallbackCycleOf (name : String) : Warning → Bool
  | .fallbackCycle _ combo _ => combo = name
  | _ => false

namespace Fighter

/-! ### From combo to combo -/

/-- The first step of a combo, provided it is itself a combo. -/
def nextCombo? (f : Fighter) (name : String) : Option String :=
  (f.firstStep? name).filter f.combos.contains

/-- The combo come to from a combo after so many steps. -/
def comboAfter? (f : Fighter) (count : Nat) (name : String) : Option String :=
  (fun place => place.bind f.nextCombo?)^[count] (some name)

/-- From the combo one comes back to it. -/
def Returns (f : Fighter) (name : String) : Prop :=
  ∃ count ≥ 1, f.comboAfter? count name = some name

/-- From the combo one comes to a combo that has no first step or whose first step is no combo. -/
def Ends (f : Fighter) (name : String) : Prop :=
  ∃ count last, f.comboAfter? count name = some last ∧
    ∀ step, f.firstStep? last = some step → f.combos.contains step = false

/-- From the combo one comes to a loop that never leads back to it. -/
def JoinsLoop (f : Fighter) (name : String) : Prop :=
  ∃ count other, f.comboAfter? count name = some other ∧ f.Returns other ∧
    ∀ more, f.comboAfter? more other ≠ some name

variable {f : Fighter} {name other : String}

theorem nextCombo?_eq_none_iff : f.nextCombo? name = none ↔
    ∀ step, f.firstStep? name = some step → f.combos.contains step = false := by
  simp [nextCombo?, Option.filter_eq_none_iff]

@[simp]
theorem comboAfter?_zero : f.comboAfter? 0 name = some name :=
  rfl

theorem comboAfter?_add {count : Nat} (h : f.comboAfter? count name = some other) (more : Nat) :
    f.comboAfter? (count + more) name = f.comboAfter? more other := by
  rw [comboAfter?, Nat.add_comm, Function.iterate_add_apply, ← comboAfter?, h]
  rfl

theorem comboAfter?_succ {count : Nat} :
    f.comboAfter? (count + 1) name = (f.comboAfter? count name).bind f.nextCombo? :=
  Function.iterate_succ_apply' _ _ _

/-- Where the first step is no combo, there is nothing after it. -/
theorem comboAfter?_succ_of_none (h : f.nextCombo? name = none) (count : Nat) :
    f.comboAfter? (count + 1) name = none := by
  rw [comboAfter?, Function.iterate_succ_apply, Option.bind_some, h]
  exact Function.iterate_fixed rfl count

theorem comboAfter?_succ_of_some (h : f.nextCombo? name = some other) (count : Nat) :
    f.comboAfter? (count + 1) name = f.comboAfter? count other := by
  rw [comboAfter?, Function.iterate_succ_apply, Option.bind_some, h]
  rfl

/-- What one comes to from a combo is a combo. -/
theorem contains_of_comboAfter? (hname : f.combos.contains name = true) {count : Nat}
    (h : f.comboAfter? count name = some other) : f.combos.contains other = true := by
  cases count with
  | zero => exact Option.some.inj h ▸ hname
  | succ count =>
    obtain ⟨last, -, hnext⟩ := Option.bind_eq_some_iff.mp (comboAfter?_succ.symm.trans h)
    exact (Option.filter_eq_some_iff.mp hnext).2

/-- A walk along first steps that ends at a combo goes from combo to combo. -/
theorem comboAfter?_eq_some_iff (hname : f.combos.contains name = true)
    (hother : f.combos.contains other = true) {count : Nat} :
    f.comboAfter? count name = some other ↔ f.walk count name = some other := by
  induction count generalizing name with
  | zero => rfl
  | succ count ih =>
    rw [walk]
    cases hnext : f.nextCombo? name with
    | some step =>
      obtain ⟨hstep, hcombo⟩ := Option.filter_eq_some_iff.mp hnext
      rw [comboAfter?_succ_of_some hnext, hstep, Option.bind_some]
      exact ih hcombo
    | none =>
      rw [comboAfter?_succ_of_none hnext]
      refine iff_of_false (by simp) fun h => ?_
      obtain ⟨step, hstep, hwalk⟩ := Option.bind_eq_some_iff.mp h
      have hcombo := nextCombo?_eq_none_iff.mp hnext step hstep
      -- a step that is no combo is the end of the walk, which is a combo
      cases count with
      | zero => exact Bool.false_ne_true (hcombo.symm.trans (Option.some.inj hwalk ▸ hother))
      | succ count =>
        have hmem := f.combos.mem_names_iff.mp (mem_names_of_walk hwalk)
        exact Bool.false_ne_true (hcombo.symm.trans hmem)

/-- The combos that are found to fall back into themselves are those that one comes back to. -/
theorem fallsBackIntoItself_iff_returns (hname : f.combos.contains name = true) :
    f.fallsBackIntoItself name = true ↔ f.Returns name := by
  rw [fallsBackIntoItself_iff]
  constructor
  · rintro ⟨count, hwalk⟩
    exact ⟨count + 1, Nat.succ_pos count, (comboAfter?_eq_some_iff hname hname).mpr hwalk⟩
  · rintro ⟨count, hcount, hback⟩
    obtain ⟨count, rfl⟩ := Nat.exists_eq_add_of_le' hcount
    exact ⟨count, (comboAfter?_eq_some_iff hname hname).mp hback⟩

/-! ### The three ways it can go -/

/-- Wherever one comes to from a combo that one comes back to, from there one comes back to it. -/
theorem Returns.back (h : f.Returns name) {count : Nat}
    (hother : f.comboAfter? count name = some other) :
    ∃ more, f.comboAfter? (more + 1) other = some name := by
  induction count generalizing other with
  | zero =>
    obtain ⟨count, hcount, hback⟩ := h
    obtain ⟨count, rfl⟩ := Nat.exists_eq_add_of_le' hcount
    exact ⟨count, Option.some.inj hother ▸ hback⟩
  | succ count ih =>
    obtain ⟨last, hlast, hnext⟩ := Option.bind_eq_some_iff.mp (comboAfter?_succ.symm.trans hother)
    obtain ⟨more, hback⟩ := ih hlast
    rw [comboAfter?_succ_of_some hnext] at hback
    cases more with
    | zero =>
      obtain ⟨count, hcount, hround⟩ := h
      obtain ⟨count, rfl⟩ := Nat.exists_eq_add_of_le' hcount
      exact ⟨count, Option.some.inj hback ▸ hround⟩
    | succ more => exact ⟨more, hback⟩

theorem Returns.not_ends (h : f.Returns name) : ¬ f.Ends name := by
  rintro ⟨count, last, hlast, hstep⟩
  obtain ⟨more, hback⟩ := h.back hlast
  rw [comboAfter?_succ_of_none (nextCombo?_eq_none_iff.mpr hstep)] at hback
  cases hback

theorem Returns.not_joinsLoop (h : f.Returns name) : ¬ f.JoinsLoop name := by
  rintro ⟨count, other, hother, -, hnever⟩
  obtain ⟨more, hback⟩ := h.back hother
  exact hnever (more + 1) hback

/-- Without an end one comes to some combo twice, because there are finitely many. -/
theorem exists_returns_of_not_ends (hname : f.combos.contains name = true) (h : ¬ f.Ends name) :
    ∃ count other, f.comboAfter? count name = some other ∧ f.Returns other := by
  have hgoes (count : Nat) : ∃ place, f.comboAfter? count name = some place := by
    induction count with
    | zero => exact ⟨name, rfl⟩
    | succ count ih =>
      obtain ⟨place, hplace⟩ := ih
      rw [comboAfter?_succ, hplace, Option.bind_some]
      refine Option.ne_none_iff_exists'.mp fun hnone => h ⟨count, place, hplace, ?_⟩
      exact nextCombo?_eq_none_iff.mp hnone
  choose place hplace using hgoes
  have hmaps : Set.MapsTo place (Finset.range (f.combos.size + 1)) f.combos.names.toFinset := by
    intro count _
    rw [List.coe_toFinset]
    exact f.combos.mem_names_iff.mpr (contains_of_comboAfter? hname (hplace count))
  have hcard : f.combos.names.toFinset.card < (Finset.range (f.combos.size + 1)).card := by
    rw [Finset.card_range]
    refine Nat.lt_succ_of_le ((List.toFinset_card_le _).trans_eq ?_)
    rw [Table.names, List.length_map, Table.size]
  obtain ⟨i, -, j, -, hne, heq⟩ := Finset.exists_ne_map_eq_of_card_lt_of_maps_to hcard hmaps
  have hreturns {i j : Nat} (hlt : i < j) (heq : place i = place j) : f.Returns (place i) := by
    refine ⟨j - i, Nat.sub_pos_of_lt hlt, ?_⟩
    rw [← comboAfter?_add (hplace i), Nat.add_sub_cancel' hlt.le, hplace, heq]
  obtain hlt | hgt := Nat.lt_or_gt_of_ne hne
  · exact ⟨i, place i, hplace i, hreturns hlt heq⟩
  · exact ⟨j, place j, hplace j, hreturns hgt heq.symm⟩

/-- One does not come back to a combo if and only if that ends or comes to another loop. -/
theorem not_returns_iff (hname : f.combos.contains name = true) :
    ¬ f.Returns name ↔ f.Ends name ∨ f.JoinsLoop name := by
  constructor
  · intro hnot
    by_contra hneither
    obtain ⟨hgoes, hjoins⟩ := not_or.mp hneither
    obtain ⟨count, other, hother, hround⟩ := exists_returns_of_not_ends hname hgoes
    refine hjoins ⟨count, other, hother, hround, fun more hback => hnot ?_⟩
    rw [← comboAfter?_add hother] at hback
    obtain hzero | hpos := Nat.eq_zero_or_pos (count + more)
    · obtain ⟨rfl, -⟩ := Nat.add_eq_zero_iff.mp hzero
      exact Option.some.inj hother ▸ hround
    · exact ⟨count + more, hpos, hback⟩
  · rintro (hends | hjoins) hreturns
    · exact hreturns.not_ends hends
    · exact hreturns.not_joinsLoop hjoins

/-! ### The warnings -/

/-- The warning about a combo that falls back into itself. -/
def cycleWarning (f : Fighter) (c : Combo) : Warning :=
  .fallbackCycle f.name c.name c.span.line

/-- A combo gets the warning about a cycle once if it falls back into itself, and else not at
all. -/
theorem filter_isFallbackCycle_comboWarnings (f : Fighter) (c : Combo) :
    (f.comboWarnings c).filter Warning.isFallbackCycle =
      if f.fallsBackIntoItself c.name then [f.cycleWarning c] else [] := by
  have hshadows : (if f.actions.contains c.name then
      [Warning.comboShadowsAction f.name c.name c.span.line] else []).filter
        Warning.isFallbackCycle = [] := by
    split <;> rfl
  have hunknown (steps : List String) :
      (steps.map (Warning.unknownComboStep f.name c.name · c.span.line)).filter
        Warning.isFallbackCycle = [] := by
    rw [List.filter_map]
    exact List.map_eq_nil_iff.mpr (List.filter_eq_nil_iff.mpr fun _ _ => Bool.false_ne_true)
  rw [comboWarnings, List.filter_append, List.filter_append, hshadows, hunknown]
  split <;> rfl

/-- A fighter's warnings about combos that fall back into themselves, one for each of them. -/
theorem filter_isFallbackCycle_warnings (f : Fighter) :
    f.warnings.filter Warning.isFallbackCycle =
      (f.combos.values.filter (f.fallsBackIntoItself ·.name)).map f.cycleWarning := by
  rw [warnings]
  induction f.combos.values with
  | nil => rfl
  | cons c cs ih =>
    rw [List.flatMap_cons, List.filter_append, filter_isFallbackCycle_comboWarnings, ih,
      List.filter_cons]
    split <;> rfl

end Fighter

namespace Program

/-- No script is warned about for combos. -/
theorem filter_isFallbackCycle_scriptsWarnings (p : Program) (scripts : List Script) :
    (p.scriptsWarnings scripts).filter Warning.isFallbackCycle = [] := by
  induction scripts with
  | nil => rfl
  | cons script later ih =>
    rw [scriptsWarnings, List.filter_append, ih, List.append_nil, scriptWarnings]
    split
    · rfl
    · split
      · rfl
      · split
        · rfl
        · rw [List.filter_map]
          exact List.map_eq_nil_iff.mpr (List.filter_eq_nil_iff.mpr fun _ _ => Bool.false_ne_true)

/-- The warnings of a program about cycles are those about its fighters, in the order of the
fighters. -/
theorem filter_isFallbackCycle_warnings (p : Program) :
    p.warnings.filter Warning.isFallbackCycle =
      p.fighters.values.flatMap fun f => f.warnings.filter Warning.isFallbackCycle := by
  rw [warnings, List.filter_append, filter_isFallbackCycle_scriptsWarnings, List.append_nil,
    List.filter_flatMap]

end Program

namespace Fighter

/-- Of the warnings about combos that fall back into themselves only one can be about a combo. -/
theorem filter_isFallbackCycleOf_warnings {f : Fighter} (hkeyed : f.combos.Keyed Combo.name)
    {c : Combo} (hc : c ∈ f.combos.values) :
    f.warnings.filter (Warning.isFallbackCycleOf c.name) =
      if f.fallsBackIntoItself c.name then [f.cycleWarning c] else [] := by
  have hof : Warning.isFallbackCycleOf c.name =
      fun w => Warning.isFallbackCycleOf c.name w && w.isFallbackCycle := by
    funext w
    cases w <;> simp [Warning.isFallbackCycleOf, Warning.isFallbackCycle]
  have hname : f.combos.values.filter (Warning.isFallbackCycleOf c.name ∘ f.cycleWarning) = [c] :=
    hkeyed.filter_values hc
  rw [hof, ← List.filter_filter, filter_isFallbackCycle_warnings, List.filter_map,
    List.filter_comm, hname, List.filter_singleton]
  cases f.fallsBackIntoItself c.name <;> rfl

/-- A fighter with a combo that falls back to itself, two that fall back to each other, one that
falls back to these and one that does not fall back to a combo. -/
def lola : Fighter :=
  { ana with
    combos := ⟨[("eco", ⟨"eco", 2, ["eco"], .none⟩), ("ida", ⟨"ida", 3, ["vuelta", "jab"], .none⟩),
      ("jab", ⟨"jab", 4, ["guardia"], .none⟩), ("rodeo", ⟨"rodeo", 5, ["ida"], .none⟩),
      ("vuelta", ⟨"vuelta", 6, ["ida"], .none⟩)], by decide⟩ }

open Classical in
/-- A combo is found to fall back into itself if and only if one comes back to it, going from combo
to first step as long as that is a combo; it is not if this ends or comes to a loop elsewhere. Each
combo that one comes back to has one warning about that, the others have none, and there are no
such warnings about a program but those about its fighters. -/
theorem fallbackCycle_exact {f : Fighter} (hkeyed : f.combos.Keyed Combo.name) :
    (∀ c ∈ f.combos.values,
      (f.fallsBackIntoItself c.name = true ↔ f.Returns c.name) ∧
      (f.fallsBackIntoItself c.name = false ↔ f.Ends c.name ∨ f.JoinsLoop c.name) ∧
      f.warnings.filter (Warning.isFallbackCycleOf c.name) =
        if f.Returns c.name then [f.cycleWarning c] else []) ∧
    f.warnings.filter Warning.isFallbackCycle =
      (f.combos.values.filter fun c => f.Returns c.name).map f.cycleWarning ∧
    ∀ p : Program, p.warnings.filter Warning.isFallbackCycle =
      p.fighters.values.flatMap fun g => g.warnings.filter Warning.isFallbackCycle := by
  have hcontains {c : Combo} (hc : c ∈ f.combos.values) : f.combos.contains c.name = true :=
    hkeyed.holds_values.contains_eq_true_iff.mpr (List.mem_map_of_mem hc)
  refine ⟨fun c hc => ?_, ?_, Program.filter_isFallbackCycle_warnings⟩
  · have hreturns := fallsBackIntoItself_iff_returns (hcontains hc)
    refine ⟨hreturns, ?_, ?_⟩
    · rw [← Bool.not_eq_true, hreturns]
      exact not_returns_iff (hcontains hc)
    · rw [filter_isFallbackCycleOf_warnings hkeyed hc]
      simp only [hreturns]
  · rw [filter_isFallbackCycle_warnings]
    refine congrArg _ (List.filter_congr fun c hc => ?_)
    rw [Bool.eq_iff_iff, fallsBackIntoItself_iff_returns (hcontains hc), decide_eq_true_iff]

open Classical in
/-- Three combos that fall back into themselves, among others that do not. -/
theorem fallbackCycle_exact_lola :
    lola.combos.Keyed Combo.name ∧
    lola.warnings.filter Warning.isFallbackCycle = [.fallbackCycle "Ana" "eco" 0,
      .fallbackCycle "Ana" "ida" 0, .fallbackCycle "Ana" "vuelta" 0] ∧
    (∀ c ∈ lola.combos.values,
      (lola.fallsBackIntoItself c.name = true ↔ lola.Returns c.name) ∧
      (lola.fallsBackIntoItself c.name = false ↔ lola.Ends c.name ∨ lola.JoinsLoop c.name) ∧
      lola.warnings.filter (Warning.isFallbackCycleOf c.name) =
        if lola.Returns c.name then [lola.cycleWarning c] else []) ∧
    lola.warnings.filter Warning.isFallbackCycle =
      (lola.combos.values.filter fun c => lola.Returns c.name).map lola.cycleWarning ∧
    ∀ p : Program, p.warnings.filter Warning.isFallbackCycle =
      p.fighters.values.flatMap fun g => g.warnings.filter Warning.isFallbackCycle :=
  ⟨by decide, by decide +kernel, fallbackCycle_exact (by decide)⟩

end Fighter

end Lucha
