import Lucha.Proofs.Parser.Productions

/-!
# Programs read without declaring

The reader of programs declares what it has read as it goes, so it stops at a name that is declared
twice. `outline` reads the same tokens and declares nothing: it accepts what the grammar derives
(`outline_eq_ok_iff`), and where it fails it has taken what some program begins with, and refuses a
token that none goes on with (`steadyAt_outline`).
-/

namespace Lucha

namespace Parser

open Grammar (OneOrMore Definition Tree)

variable {ts rest : List Token} {fault : Fault}

/-! ### Readers that declare nothing -/

/-- `fighter := "luchador" ID "{" stats actions combos "}"`, with nothing declared. -/
def fighterOutline : Parser Unit := do
  let _ ← word .luchador
  let _ ← ident "fighter name"
  let _ ← mark .openBrace
  let _ ← stats
  let _ ← actions
  let _ ← combos
  let _ ← mark .closeBrace
  return ()

/-- Fighters one after the other, as long as one more is announced, with nothing declared. -/
def fightersOutline : Nat → Parser Unit
  | 0 => return ()
  | bound + 1 => do
    let _ ← fighterOutline
    if ← peek (.keyword .luchador) then fightersOutline bound else return ()

/-- `program := fighter+ simulation`, with nothing declared. -/
def outline : Parser Unit := do
  let _ ← fightersOutline ((← get).length + 1)
  let _ ← simulation
  atEnd

/-! ### What the outline accepts -/

/-- A fighter with nothing declared is accepted where its definition is written out. -/
theorem fighterOutline_eq_ok_iff {u : Unit} :
    fighterOutline ts = .ok u rest ↔ ∃ d : Definition, d.Written ∧ Spells d.leaves ts rest := by
  rw [fighterOutline]
  simp only [identAt_bind_eq_ok_iff, word_bind_eq_ok_iff, mark_bind_eq_ok_iff, pure_eq_ok_iff,
    bind_eq_ok_iff (p := stats), Prod.exists, stats_eq_ok_iff, bind_eq_ok_iff (p := actions),
    actions_eq_ok_iff, bind_eq_ok_iff (p := combos), combos_eq_ok_iff]
  constructor
  · rintro ⟨mid₁, h₁, name, span, mid₂, h₂, mid₃, h₃, hp, stamina, mid₄, h₄, _, mid₅,
      ⟨lines, ⟨hlines, h₅⟩, -⟩, combos, mid₆, ⟨hcombos, h₆⟩, _, h₇, -, rfl⟩
    have hitems := spells_append.mpr ⟨mid₅, spells_append.mpr ⟨mid₄, h₄, h₅⟩, h₆⟩
    have hbraced := spells_cons.mpr ⟨mid₃, h₃, spells_append.mpr ⟨mid₆, hitems, h₇⟩⟩
    have hleaves := spells_cons.mpr ⟨mid₁, h₁, spells_cons.mpr ⟨mid₂, h₂, hbraced⟩⟩
    exact ⟨⟨name, span, hp, stamina, lines, combos⟩, ⟨hlines, hcombos⟩, hleaves⟩
  · rintro ⟨⟨name, span, hp, stamina, lines, combos⟩, ⟨hlines, hcombos⟩, hleaves⟩
    obtain ⟨mid₁, h₁, hleaves⟩ := spells_cons.mp hleaves
    obtain ⟨mid₂, h₂, hleaves⟩ := spells_cons.mp hleaves
    obtain ⟨mid₃, h₃, hleaves⟩ := spells_cons.mp hleaves
    obtain ⟨mid₆, hleaves, h₇⟩ := spells_append.mp hleaves
    obtain ⟨mid₅, hleaves, h₆⟩ := spells_append.mp hleaves
    obtain ⟨mid₄, h₄, h₅⟩ := spells_append.mp hleaves
    exact ⟨mid₁, h₁, name, span, mid₂, h₂, mid₃, h₃, hp, stamina, mid₄, h₄, _, mid₅,
      ⟨lines, ⟨hlines, h₅⟩, rfl⟩, combos, mid₆, ⟨hcombos, h₆⟩, rest, h₇, trivial, rfl⟩

/-- Fighters with nothing declared are accepted where one or more definitions are written out, up to
a token that announces no other. -/
theorem fightersOutline_eq_ok_iff {bound : Nat} (hbound : ts.length < bound) {u : Unit} :
    fightersOutline bound ts = .ok u rest ↔ ∃ ds : List Definition,
      OneOrMore Definition.Written ds ∧ Spells (ds.flatMap Definition.leaves) ts rest ∧
        ¬ Starts (.keyword .luchador) rest := by
  induction bound generalizing ts with
  | zero => omega
  | succ bound ih =>
    rw [fightersOutline]
    simp only [bind_eq_ok_iff (p := fighterOutline), fighterOutline_eq_ok_iff,
      peek_bind_eq_ok_iff, pure_eq_ok_iff]
    constructor
    · rintro ⟨_, mid, ⟨d, hd, hleaves⟩, ⟨-, hread⟩ | ⟨hstop, -, rfl⟩⟩
      · have hmid : mid.length < bound :=
          Nat.lt_of_lt_of_le (Spells.length_lt hleaves) (Nat.le_of_lt_succ hbound)
        obtain ⟨ds, ⟨-, hds⟩, hrest, hstop⟩ := (ih hmid).mp hread
        refine ⟨d :: ds, ⟨List.cons_ne_nil _ _, List.forall_mem_cons.mpr ⟨hd, hds⟩⟩, ?_, hstop⟩
        rw [List.flatMap_cons]
        exact spells_append.mpr ⟨mid, hleaves, hrest⟩
      · rw [← List.flatMap_singleton Definition.leaves d] at hleaves
        exact ⟨[d], ⟨List.cons_ne_nil _ _, List.forall_mem_singleton.mpr hd⟩, hleaves, hstop⟩
    · rintro ⟨_ | ⟨d, ds⟩, ⟨hne, hds⟩, hleaves, hstop⟩
      · exact absurd rfl hne
      · obtain ⟨hd, hds⟩ := List.forall_mem_cons.mp hds
        rw [List.flatMap_cons] at hleaves
        obtain ⟨mid, hfirst, hrest⟩ := spells_append.mp hleaves
        refine ⟨(), mid, ⟨d, hd, hfirst⟩, ?_⟩
        -- the next definition starts with the word that announces it, and nothing else does
        cases ds with
        | nil =>
          cases spells_nil.mp hrest
          exact .inr ⟨hstop, trivial, rfl⟩
        | cons next ds =>
          have hmid : mid.length < bound :=
            Nat.lt_of_lt_of_le (Spells.length_lt hfirst) (Nat.le_of_lt_succ hbound)
          have hstarts : Starts (.keyword .luchador) mid := (Spells.starts_iff hrest).mpr rfl
          exact .inl ⟨hstarts, (ih hmid).mpr ⟨_, ⟨List.cons_ne_nil _ _, hds⟩, hrest, hstop⟩⟩

/-- The outline accepts what the grammar derives. -/
theorem outline_eq_ok_iff {u : Unit} :
    outline ts = .ok u rest ↔ (∃ t : Tree, t.Derives ts) ∧ rest = [] := by
  rw [outline, get_bind_eq_ok_iff]
  simp only [bind_eq_ok_iff (p := fightersOutline _),
    fightersOutline_eq_ok_iff (Nat.lt_succ_self _), bind_eq_ok_iff (p := simulation), Prod.exists,
    simulation_eq_ok_iff, atEnd_eq_ok_iff]
  constructor
  · rintro ⟨-, mid, ⟨ds, hds, hdefinitions, -⟩, m, ss, _, ⟨hss, hsimulation⟩, rfl, rfl⟩
    exact ⟨⟨⟨ds, m, ss⟩, ⟨hds, hss⟩, spells_append.mpr ⟨mid, hdefinitions, hsimulation⟩⟩, rfl⟩
  · rintro ⟨⟨⟨ds, m, ss⟩, ⟨hds, hss⟩, hleaves⟩, rfl⟩
    obtain ⟨mid, hdefinitions, hsimulation⟩ := spells_append.mp hleaves
    have hstop : ¬ Starts (.keyword .luchador) mid := fun hstarts =>
      nomatch hsimulation.starts_iff.mp hstarts
    exact ⟨(), mid, ⟨ds, hds, hdefinitions, hstop⟩, m, ss, [], ⟨hss, hsimulation⟩, rfl, rfl⟩

/-! ### Where the outline fails -/

theorem steady_fighterOutline : Steady [] fighterOutline :=
  (steady_word _).bind fun _ => (steady_ident _).bind fun _ => (steady_mark _).bind fun _ =>
  steady_stats.bind fun _ => steady_actions.bind fun _ => steady_combos.bind fun _ =>
  (steady_mark _).bind fun _ => steady_pure _

/-- Fighters one after the other, with nothing declared and not counted. -/
def manyOutlines : Parser Unit :=
  counted (fun bound (_ : Unit) => fightersOutline (bound + 1)) ()

/-- Fighters with nothing declared: one, and more if another one is announced. -/
theorem manyOutlines_eq : manyOutlines = (fighterOutline >>= fun _ =>
    peek (.keyword .luchador) >>= fun found => if found = true then manyOutlines else pure ()) := by
  refine counted_eq _ (fun g i => fighterOutline >>= fun _ =>
    peek (.keyword .luchador) >>= fun found => if found = true then g i else pure ())
    (fun _ => rfl) (fun _ _ => rfl) (fun g g' i ts h => ?_) ()
  exact bind_congr_of_ok fun _ mid hfirst =>
    peek_bind_congr (h i mid (steady_fighterOutline.rereads.length_lt ⟨_, rfl⟩ hfirst)) rfl

/-- The first of some fighters is announced. -/
theorem starts_of_manyOutlines {u : Unit} (h : manyOutlines ts = .ok u rest) :
    Starts (.keyword .luchador) ts := by
  rw [manyOutlines_eq] at h
  obtain ⟨_, mid, hfirst, -⟩ := bind_eq_ok_iff.mp h
  obtain ⟨d, -, hleaves⟩ := fighterOutline_eq_ok_iff.mp hfirst
  exact hleaves.starts_iff.mpr rfl

/-- Fighters with nothing declared look ahead for the word that announces another one. -/
theorem steady_manyOutlines : Steady [.keyword .luchador] manyOutlines := by
  intro ts
  induction hn : ts.length using Nat.strongRecOn generalizing ts with
  | _ n ih =>
    rw [manyOutlines_eq]
    refine steady_fighterOutline.bindAt (fun _ mid hfirst => ?_) fun _ => ⟨[], (), rfl⟩
    have hlt := steady_fighterOutline.rereads.length_lt ⟨_, rfl⟩ hfirst
    by_cases hstarts : Starts (.keyword .luchador) mid
    · exact (ih mid.length (by omega) mid rfl).of_starts hstarts ⟨_, rfl⟩
        (fun _ _ _ => starts_of_manyOutlines) fun ts => peek_bind_of_starts
    · exact steadyAt_of_not_starts (List.mem_singleton.mpr rfl) hstarts fun ts hstop =>
        peek_bind_of_not_starts hstop

/-- Where tokens are left at the end, the first of them is refused, and without them nothing is. -/
theorem steadyAt_atEnd {token : Token} : SteadyAt [] atEnd (token :: ts) where
  rereads := ⟨[], rereadsAt_refused fun _ => rfl⟩
  completes := by
    rintro fault rest ⟨⟩
    exact ⟨[], [], (), rfl, rfl⟩

theorem shuns_simulation : Shuns [.keyword .luchador] simulation := by
  rintro kind hkind ts ⟨m, ss⟩ rest hrun hstarts
  obtain rfl := List.mem_singleton.mp hkind
  cases (simulation_eq_ok_iff.mp hrun).2.starts_iff.mp hstarts

/-- Where the outline fails, the run is repeated where other tokens follow, and what it takes can be
completed. -/
theorem steadyAt_outline (h : outline ts = .error fault rest) : SteadyAt [] outline ts := by
  have hend : ∃ ts u, (simulation >>= fun _ => atEnd) ts = .ok u [] := by
    obtain ⟨ts, a, hrun⟩ := steady_simulation.exists_ok
    exact ⟨ts, (), bind_of_ok hrun⟩
  show SteadyAt [] (manyOutlines >>= fun _ => simulation >>= fun _ => atEnd) ts
  refine steady_manyOutlines.bindAt_ahead (fun _ mid hfirst => ?_) (fun _ => hend)
    (fun _ => ⟨_, rfl⟩) fun _ => shuns_simulation.bind
  refine steady_simulation.bindAt (fun _ last hsecond => ?_) fun _ => ⟨[], (), rfl⟩
  -- at the end of the tokens the outline would not have failed
  cases last with
  | nil =>
    have hrun : outline ts = .ok () [] := (bind_of_ok hfirst).trans (bind_of_ok hsecond)
    cases h.symm.trans hrun
  | cons token last => exact steadyAt_atEnd

end Parser

end Lucha
