import Lucha.Proofs.Parser.Outline

/-!
# What the reader of programs comes to

The reader of programs fails as its outline does, or before that at a name that is declared twice,
or at last where the program is put together (`verdict`). A name that is declared twice stays so,
whatever tokens come behind (`fighters_append`).
-/

namespace Lucha

/-- A name is declared twice. -/
def SemanticFault.IsDuplicate : SemanticFault → Prop
  | actionTwice .. | comboTwice .. | fighterTwice .. => True
  | _ => False

/-- What goes wrong in a row of steps goes wrong in one of them. -/
theorem foldlM_error {α β ε : Type} {step : β → α → Except ε β} {P : ε → Prop}
    (h : ∀ ⦃b a e⦄, step b a = .error e → P e) {as : List α} {b : β} {e : ε}
    (herror : as.foldlM step b = .error e) : P e := by
  induction as generalizing b with
  | nil => cases herror
  | cons a as ih =>
    rw [List.foldlM_cons] at herror
    cases hstep : step b a with
    | ok b =>
      rw [hstep] at herror
      exact ih herror
    | error e =>
      rw [hstep] at herror
      cases herror
      exact h hstep

/-- An action is refused only for its name. -/
theorem Fighter.isDuplicate_of_declareAction {f : Fighter} {action : Action} {i : Inconsistency}
    (h : f.declareAction action = .error i) : i.fault.IsDuplicate := by
  obtain ⟨first, -, rfl⟩ := Builder.built_add_eq_error_iff.mp h
  trivial

/-- A combo is refused only for its name. -/
theorem Fighter.isDuplicate_of_declareCombo {f : Fighter} {combo : Combo} {i : Inconsistency}
    (h : f.declareCombo combo = .error i) : i.fault.IsDuplicate := by
  obtain ⟨first, -, rfl⟩ := Builder.built_add_eq_error_iff.mp h
  trivial

/-- A fighter is refused only for its name. -/
theorem Library.isDuplicate_of_declare {library : Library} {f : Fighter} {i : Inconsistency}
    (h : library.declare f = .error i) : i.fault.IsDuplicate := by
  obtain ⟨first, -, rfl⟩ := Builder.built_add_eq_error_iff.mp h
  trivial

/-- Nothing is declared twice where a program is put together. -/
theorem Program.not_isDuplicate_of_assemble {library : Library} {matchup : Matchup}
    {scripts : List Script} {i : Inconsistency} (h : assemble library matchup scripts = .error i) :
    ¬ i.fault.IsDuplicate := by
  rw [assemble] at h
  split at h
  · rename_i found hfound
    cases h
    obtain ⟨fault, hfault, rfl⟩ := Option.map_eq_some_iff.mp hfound
    repeat' split at hfault
    all_goals cases hfault <;> exact id
  · cases h

namespace Parser

variable {α β : Type} {ts rest : List Token}

/-! ### The outline of a reader -/

/-- The reader comes out as its outline does, or at a name that is declared twice. -/
def Outlines (q : Parser Unit) (p : Parser α) : Prop :=
  ∀ ts, (∃ i rest, p ts = .error (.inconsistent i) rest ∧ i.fault.IsDuplicate) ∨
    q ts = ((fun _ => ()) <$> p) ts

namespace Outlines

variable {p : Parser α} {q q' : Parser Unit} {f : α → Parser β}

theorem pure (a : α) : Outlines (pure ()) (pure a : Parser α) :=
  fun _ => .inr rfl

/-- The same reader before both. -/
theorem bind_same {f' : α → Parser Unit} (h : ∀ a, Outlines (f' a) (f a)) :
    Outlines (p >>= f') (p >>= f) := by
  intro ts
  cases hrun : p ts with
  | error fault rest =>
    exact .inr ((bind_of_error hrun).trans (map_of_error (bind_of_error hrun)).symm)
  | ok a mid =>
    rw [bind_of_ok hrun, bind_of_ok hrun, map_eq_pure_bind, bind_assoc, bind_of_ok hrun,
      ← map_eq_pure_bind]
    exact h a mid

/-- A reader and its outline before both. -/
theorem bind (h : Outlines q p) (h' : ∀ a, Outlines q' (f a)) :
    Outlines (q >>= fun _ => q') (p >>= f) := by
  intro ts
  obtain ⟨i, rest, hrun, hi⟩ | heq := h ts
  · exact .inl ⟨i, rest, bind_of_error hrun, hi⟩
  · cases hrun : p ts with
    | error fault rest =>
      rw [map_of_error hrun] at heq
      exact .inr ((bind_of_error heq).trans (map_of_error (bind_of_error hrun)).symm)
    | ok a mid =>
      rw [map_of_ok hrun] at heq
      rw [bind_of_ok heq, bind_of_ok hrun, map_eq_pure_bind, bind_assoc, bind_of_ok hrun,
        ← map_eq_pure_bind]
      exact h' a mid

/-- A declaration that is only refused for a name that is declared twice. -/
theorem consistent {e : Except Inconsistency α} (he : ∀ i, e = .error i → i.fault.IsDuplicate)
    (h : ∀ a, Outlines q (f a)) : Outlines q (consistent e >>= f) := by
  intro ts
  cases e with
  | error i => exact .inl ⟨i, ts, rfl, he i rfl⟩
  | ok a => exact h a ts

end Outlines

/-- A fighter comes out as its outline, or one of its names is declared twice. -/
theorem outlines_fighter : Outlines fighterOutline fighter :=
  .bind_same fun _ => .bind_same fun ⟨_, _⟩ => .bind_same fun _ => .bind_same fun ⟨_, _⟩ =>
  .bind_same fun _ => .consistent (fun _ => foldlM_error fun _ _ _ =>
    Fighter.isDuplicate_of_declareAction) fun _ =>
  .bind_same fun _ => .consistent (fun _ => foldlM_error fun _ _ _ =>
    Fighter.isDuplicate_of_declareCombo) fun _ =>
  .bind_same fun _ => .pure _

theorem outlines_fighters (bound : Nat) (library : Library) :
    Outlines (fightersOutline bound) (fighters library bound) := by
  induction bound generalizing library with
  | zero => exact .pure library
  | succ bound ih =>
    refine outlines_fighter.bind fun f => .consistent (fun _ => Library.isDuplicate_of_declare)
      fun library => .bind_same fun found => ?_
    cases found with
    | true => exact ih library
    | false => exact .pure library

/-! ### The reader of programs -/

/-- What the reader of programs comes to, told by its outline. -/
inductive Verdict (ts : List Token) : Prop where
  /-- A name is declared twice by the fighters. -/
  | duplicate {i : Inconsistency} {rest : List Token}
    (fighters : fighters .empty (ts.length + 1) ts = .error (.inconsistent i) rest)
    (twice : i.fault.IsDuplicate) (program : program ts = .error (.inconsistent i) rest)
  /-- The tokens are no program. -/
  | misfit {fault : Fault} {rest : List Token} (outline : outline ts = .error fault rest)
    (program : program ts = .error fault rest)
  /-- The tokens are a program, but it may be inconsistent. -/
  | whole (outline : outline ts = .ok () [])
    (program : (∃ p, program ts = .ok p []) ∨
      ∃ i, ¬ i.fault.IsDuplicate ∧ program ts = .error (.inconsistent i) [])

/-- A fault of the fighters is one of the program. -/
theorem program_of_fighters_eq_error {fault : Fault}
    (h : fighters .empty (ts.length + 1) ts = .error fault rest) :
    program ts = .error fault rest := by
  show (fighters .empty (ts.length + 1) >>= fun library => _) ts = _
  exact bind_of_error h

/-- Whatever the tokens, the reader of programs comes to one of the verdicts: the fighters come out
as their outline or at a name that is declared twice, and what stands behind them declares
nothing. -/
theorem verdict (ts : List Token) : Verdict ts := by
  have hprogram : program ts = (fighters .empty (ts.length + 1) >>= fun library =>
    simulation >>= fun simulated => atEnd >>= fun _ =>
      consistent (Program.assemble library simulated.1 simulated.2)) ts := rfl
  have houtline : outline ts
      = (fightersOutline (ts.length + 1) >>= fun _ => simulation >>= fun _ => atEnd) ts := rfl
  obtain ⟨i, rest, hrun, hi⟩ | heq := outlines_fighters (ts.length + 1) .empty ts
  · exact .duplicate hrun hi (program_of_fighters_eq_error hrun)
  cases hfighters : fighters .empty (ts.length + 1) ts with
  | error fault rest =>
    rw [map_of_error hfighters] at heq
    exact .misfit (houtline.trans (bind_of_error heq)) (program_of_fighters_eq_error hfighters)
  | ok library mid =>
    rw [map_of_ok hfighters] at heq
    rw [bind_of_ok hfighters] at hprogram
    rw [bind_of_ok heq] at houtline
    cases hsimulation : simulation mid with
    | error fault rest =>
      exact .misfit (houtline.trans (bind_of_error hsimulation))
        (hprogram.trans (bind_of_error hsimulation))
    | ok simulated last =>
      obtain ⟨matchup, scripts⟩ := simulated
      rw [bind_of_ok hsimulation] at hprogram houtline
      cases last with
      | cons token last => exact .misfit houtline (hprogram.trans (bind_of_error rfl))
      | nil =>
        have hlast : program ts
            = consistent (Program.assemble library matchup scripts) [] := hprogram
        refine .whole houtline ?_
        cases hassemble : Program.assemble library matchup scripts with
        | ok p => exact .inl ⟨p, hlast.trans (by rw [hassemble]; rfl)⟩
        | error i =>
          exact .inr ⟨i, Program.not_isDuplicate_of_assemble hassemble,
            hlast.trans (by rw [hassemble]; rfl)⟩

/-- A fault that is no inconsistency is one of the outline. -/
theorem outline_of_program_eq_error {fault : Fault} (h : program ts = .error fault rest)
    (hfault : ∀ i, fault ≠ .inconsistent i) : outline ts = .error fault rest := by
  cases verdict ts with
  | duplicate _ _ hprogram =>
    cases h.symm.trans hprogram
    exact absurd rfl (hfault _)
  | misfit houtline hprogram =>
    cases h.symm.trans hprogram
    exact houtline
  | whole _ hprogram =>
    obtain ⟨p, hprogram⟩ | ⟨i, -, hprogram⟩ := hprogram
    · cases h.symm.trans hprogram
    · cases h.symm.trans hprogram
      exact absurd rfl (hfault _)

/-! ### Names declared twice -/

/-- A fighter is read the same whatever follows its closing brace. -/
theorem rereads_fighter : Rereads [] fighter :=
  (steady_word _).rereads.bind fun _ => (steady_ident _).rereads.bind fun ⟨_, _⟩ =>
  (steady_mark _).rereads.bind fun _ => steady_stats.rereads.bind fun ⟨_, _⟩ =>
  steady_actions.rereads.bind fun _ => (rereads_consistent _).bind fun _ =>
  steady_combos.rereads.bind fun _ => (rereads_consistent _).bind fun _ =>
  (steady_mark _).rereads.bind fun _ => rereads_pure _

/-- Fighters declared one after the other, not counted. -/
def manyFighters (library : Library) : Parser Library :=
  counted (fun bound library => fighters library (bound + 1)) library

/-- Fighters are declared one by one: one, and more if another one is announced. -/
theorem manyFighters_eq (library : Library) : manyFighters library = (fighter >>= fun f =>
    consistent (library.declare f) >>= fun library => peek (.keyword .luchador) >>= fun found =>
      if found = true then manyFighters library else pure library) := by
  refine counted_eq (fun bound library => fighters library (bound + 1))
    (fun g library => fighter >>= fun f => consistent (library.declare f) >>= fun library =>
      peek (.keyword .luchador) >>= fun found =>
        if found = true then g library else pure library)
    (fun _ => rfl) (fun _ _ => rfl) (fun g g' library ts h => ?_) library
  refine bind_congr_of_ok fun f mid hfirst => bind_congr_of_ok fun library last hdeclare => ?_
  have hlt := rereads_fighter.length_lt ⟨_, rfl⟩ hfirst
  obtain ⟨-, rfl⟩ := consistent_eq_ok_iff.mp hdeclare
  exact peek_bind_congr (h library mid hlt) rfl

/-- Fighters look ahead for the word that announces another one. -/
theorem rereads_manyFighters (library : Library) :
    Rereads [.keyword .luchador] (manyFighters library) := by
  intro ts
  induction hn : ts.length using Nat.strongRecOn generalizing ts library with
  | _ n ih =>
    rw [manyFighters_eq]
    obtain ⟨_, hfighter⟩ := rereads_fighter ts
    refine hfighter.bind (fun f mid hfirst => ?_) (.inl rfl)
    have hdeclares : Rereads [] (consistent (library.declare f)) := rereads_consistent _
    obtain ⟨_, hdeclare⟩ := hdeclares mid
    refine hdeclare.bind (fun library last hdeclared => ?_) (.inl rfl)
    have hlt := rereads_fighter.length_lt ⟨_, rfl⟩ hfirst
    obtain ⟨-, rfl⟩ := consistent_eq_ok_iff.mp hdeclared
    by_cases hstarts : Starts (.keyword .luchador) mid
    · obtain ⟨taken, htaken⟩ := ih mid.length (by omega) library mid rfl
      refine ⟨taken, htaken.congr_head? ⟨_, rfl⟩ fun ts hhead => peek_bind_of_starts ?_⟩
      rwa [Starts, hhead]
    · exact ⟨[], rereadsAt_of_not_starts (List.mem_singleton.mpr rfl) hstarts fun ts hstop =>
        peek_bind_of_not_starts hstop⟩

/-- A name that is declared twice stays so, whatever tokens come behind. -/
theorem fighters_append {i : Inconsistency}
    (h : fighters .empty (ts.length + 1) ts = .error (.inconsistent i) rest) (more : List Token) :
    fighters .empty ((ts ++ more).length + 1) (ts ++ more)
      = .error (.inconsistent i) (rest ++ more) := by
  have hrun : manyFighters .empty ts = .error (.inconsistent i) rest := h
  obtain ⟨taken, happend, -, hreread⟩ := rereads_manyFighters .empty ts
  rw [hrun] at happend hreread
  rw [← happend, List.append_assoc]
  exact @hreread (rest ++ more) trivial

/-- The reader of programs leaves what is behind the tokens that it takes. -/
theorem exists_append_left_program (ts : List Token) :
    ∃ taken, taken ++ left (program ts) = ts := by
  cases verdict ts with
  | duplicate hfighters _ hprogram =>
    have hrun : manyFighters .empty ts = _ := hfighters
    obtain ⟨taken, happend, -⟩ := rereads_manyFighters .empty ts
    rw [hrun] at happend
    exact ⟨taken, hprogram ▸ happend⟩
  | misfit houtline hprogram =>
    obtain ⟨⟨taken, happend, -⟩, -⟩ := steadyAt_outline houtline
    rw [houtline] at happend
    exact ⟨taken, hprogram ▸ happend⟩
  | whole _ hprogram =>
    obtain ⟨p, hprogram⟩ | ⟨i, -, hprogram⟩ := hprogram
    · exact ⟨ts, hprogram ▸ List.append_nil ts⟩
    · exact ⟨ts, hprogram ▸ List.append_nil ts⟩

end Parser

end Lucha
