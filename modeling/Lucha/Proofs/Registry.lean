import Lucha.Proofs.Assembly

/-!
# Refused declarations

Actions, combos and fighters are declared alike: into a table of what is built, where nothing else
depends on the table (`Registers`). A run of such declarations fails at the first name that comes
again (`Registers.exists_again`).
-/

namespace Lucha

/-- A fold that may fail fails at one of its steps, and the steps before succeed. -/
theorem foldlM_eq_error_iff {σ α ε : Type} {f : σ → α → Except ε σ} {items : List α} {s : σ}
    {e : ε} : items.foldlM f s = .error e ↔ ∃ earlier item later mid,
      items = earlier ++ item :: later ∧ earlier.foldlM f s = .ok mid ∧ f mid item = .error e := by
  induction items generalizing s with
  | nil => simp [pure, Except.pure]
  | cons first rest ih =>
    rw [List.foldlM_cons]
    constructor
    · intro h
      cases hfirst : f s first with
      | error e' =>
        rw [hfirst] at h
        cases h
        exact ⟨[], first, rest, s, rfl, rfl, hfirst⟩
      | ok made =>
        rw [hfirst] at h
        obtain ⟨earlier, item, later, mid, rfl, hmid, hitem⟩ := ih.mp h
        exact ⟨first :: earlier, item, later, mid, rfl,
          foldlM_cons_eq_ok_iff.mpr ⟨made, hfirst, hmid⟩, hitem⟩
    · rintro ⟨_ | ⟨_, earlier⟩, item, later, mid, hitems, hmid, hitem⟩
      · obtain ⟨rfl, rfl⟩ := List.cons.inj hitems
        cases hmid
        rw [hitem]
        rfl
      · obtain ⟨rfl, rfl⟩ := List.cons.inj hitems
        obtain ⟨made, hfirst, hmid⟩ := foldlM_cons_eq_ok_iff.mp hmid
        rw [hfirst]
        exact ih.mpr ⟨earlier, item, later, mid, rfl, hmid, hitem⟩

/-- The name of an item is that of an earlier one, and before it no name comes twice. -/
structure Again {α : Type} (key : α → String) (items : List α) (first again : α) : Prop where
  split : ∃ earlier later, items = earlier ++ again :: later ∧ (earlier.map key).Nodup ∧
    first ∈ earlier
  key_eq : key first = key again

/-- Items are declared into a table of what is built: the table is put where it is looked up, and it
does not bear on the reason why an item is refused. -/
structure Registers {σ α : Type} (table : σ → Table α) (put : σ → Table α → σ)
    (refusal : σ → α → α → Inconsistency) : Prop where
  table_put : ∀ s t, table (put s t) = t
  put_put : ∀ s t u, put (put s t) u = put s u
  put_table : ∀ s, put s (table s) = s
  refusal_put : ∀ s t, refusal (put s t) = refusal s

namespace Registers

variable {σ α : Type} {table : σ → Table α} {put : σ → Table α → σ} {key : α → String}
  {refusal : σ → α → α → Inconsistency} {s : σ} {e : Inconsistency}

/-- A run of declarations into an empty table fails at the first name that comes again. -/
theorem exists_again (h : Registers table put refusal) (hempty : table s = .empty) {items : List α}
    (herror : items.foldlM (fun s item => (Builder.add table put key refusal item).built s) s
      = .error e) :
    ∃ first again, Again key items first again ∧ refusal s first again = e := by
  obtain ⟨earlier, again, later, mid, rfl, hmid, hagain⟩ := foldlM_eq_error_iff.mp herror
  obtain ⟨⟨hnodup, hnew⟩, rfl⟩ :=
    (declareAll_eq_ok_iff table put (fun _ _ _ => Builder.built_add_eq_ok_iff)
      h.table_put h.put_put h.put_table).mp hmid
  obtain ⟨first, hfirst, rfl⟩ := Builder.built_add_eq_error_iff.mp hagain
  rw [hempty] at hnew
  rw [h.table_put, hempty] at hfirst
  obtain ⟨hmem, hkey⟩ :=
    (Table.Holds.empty.insertAll hnodup hnew).find?_eq_some_iff.mp hfirst
  refine ⟨first, again, ⟨⟨earlier, later, rfl, hnodup, hmem⟩, hkey⟩, ?_⟩
  rw [h.refusal_put]

end Registers

/-- Actions are declared into the actions of a fighter. -/
theorem Fighter.registers_action : Registers Fighter.actions
    (fun f actions => { f with actions })
    fun f first a => ⟨.actionTwice f.name a.name first.span.line, a.span.line⟩ where
  table_put _ _ := rfl
  put_put _ _ _ := rfl
  put_table _ := rfl
  refusal_put _ _ := rfl

/-- Combos are declared into the combos of a fighter. -/
theorem Fighter.registers_combo : Registers Fighter.combos
    (fun f combos => { f with combos })
    fun f first c => ⟨.comboTwice f.name c.name first.span.line, c.span.line⟩ where
  table_put _ _ := rfl
  put_put _ _ _ := rfl
  put_table _ := rfl
  refusal_put _ _ := rfl

end Lucha
