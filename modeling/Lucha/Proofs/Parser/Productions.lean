import Lucha.Proofs.Parser.Completion
import Lucha.Proofs.Parser.Program

/-!
# The readers of the grammar are steady

Each reader of fighters and simulations that declares nothing is steady: it is put together from
steady readers, along its lines. Three look at a token that they leave: lists go on with a comma,
blocks with what is no closing brace, and conditionals with `sino`. What follows a list starts with
a mark; and no instruction starts with `sino`, so a conditional in a block ends where the next
instruction starts (`shuns_instruction`).
-/

namespace Lucha.Parser

variable {ts rest : List Token} {ahead : List TokenKind} {p : Parser Instruction}

/-! ### Fighters -/

theorem steady_stats : Steady [] stats :=
  (steady_word _).bind fun _ => (steady_mark _).bind fun _ => (steady_word _).bind fun _ =>
  (steady_mark _).bind fun _ => (steady_number _).bind fun _ => (steady_mark _).bind fun _ =>
  (steady_word _).bind fun _ => (steady_mark _).bind fun _ => (steady_number _).bind fun _ =>
  (steady_mark _).bind fun _ => (steady_mark _).bind fun _ => steady_pure _

theorem steady_trait : Steady [] trait := by
  refine (steady_choice TraitKey.ofKeyword? (k := .dano) rfl).bind fun key =>
    (steady_mark _).bind fun _ => ?_
  cases key with
  | damage => exact (steady_number _).bind fun _ => steady_pure _
  | cost => exact (steady_number _).bind fun _ => steady_pure _
  | height => exact (steady_choice heightOf? (k := .alta) rfl).bind fun _ => steady_pure _
  | shape => exact (steady_choice shapeOf? (k := .frontal) rfl).bind fun _ => steady_pure _
  | spinning => exact (steady_choice answerOf? (k := .si) rfl).bind fun _ => steady_pure _

theorem steady_strike (kind : ActionKind) : Steady [] (strike kind) :=
  (steady_ident _).bind fun ⟨_, _⟩ => (steady_mark _).bind fun _ =>
  (steady_commaSeparated steady_trait).bind_ahead
    (fun _ => (steady_mark .closeParen).bind fun _ => steady_pure _) (fun _ => ⟨_, rfl⟩)
    fun _ => shuns_mark (by simp)

/-- A line of actions can be completed, whether it lists strikes or names a block. -/
theorem steady_action : Steady [] action := by
  refine (steady_choice actionKindOf? (k := .golpe) rfl).bind fun kind =>
    (steady_mark _).bind fun _ => ?_
  have hend (actions : List Action) :
      Steady [] (mark .semicolon >>= fun _ => pure actions) :=
    (steady_mark _).bind fun _ => steady_pure _
  by_cases hblock : kind = .block
  · rw [if_pos hblock]
    exact (steady_ident _).bind fun ⟨_, _⟩ => (steady_pure _).bind hend
  · rw [if_neg hblock]
    exact (steady_commaSeparated (steady_strike kind)).bind_ahead hend (fun _ => ⟨_, rfl⟩)
      fun _ => shuns_mark (by simp)

theorem steady_actions : Steady [] actions :=
  (steady_word _).bind fun _ =>
  (steady_braced steady_action ⟨_, rfl⟩ (by simp)
    ((reads_action.shuns avoids_action).mono (by simp))).bind fun _ => steady_pure _

/-- A combo can be completed wherever it breaks off: its steps go on as long as commas follow. -/
theorem steady_combo : Steady [] combo :=
  (steady_ident _).bind fun ⟨_, _⟩ => (steady_mark _).bind fun _ => (steady_word _).bind fun _ =>
  (steady_mark _).bind fun _ => (steady_number _).bind fun _ => (steady_mark _).bind fun _ =>
  (steady_mark _).bind fun _ => (steady_commaSeparated ((steady_ident _).map _)).bind_ahead
    (fun _ => (steady_mark .closeBrace).bind fun _ => steady_pure _) (fun _ => ⟨_, rfl⟩)
    fun _ => shuns_mark (by simp)

theorem steady_combos : Steady [] combos :=
  (steady_word _).bind fun _ => steady_braced steady_combo ⟨_, rfl⟩ (by simp)
    ((reads_combo.shuns avoids_combo).mono (by simp))

/-! ### Simulations -/

theorem steady_condition : Steady [] condition :=
  (steady_choice subjectOf? (k := .self) rfl).bind fun _ => (steady_mark _).bind fun _ =>
  (steady_choice statOf? (k := .hp) rfl).bind fun _ =>
  (steady_accept comparisonOf? (k := .symbol .less) rfl).bind fun ⟨_, _⟩ =>
  (steady_number _).bind fun _ => steady_pure _

theorem steady_use : Steady [] use :=
  (steady_word _).bind fun _ => (steady_ident _).bind fun ⟨_, _⟩ =>
  (steady_mark _).bind fun _ => steady_pure _

theorem steady_block (hp : Steady ahead p) (hungry : Hungry p)
    (hbrace : .symbol .closeBrace ∉ ahead) (hshuns : Shuns (.symbol .closeBrace :: ahead) p) :
    Steady [] (block p) :=
  (steady_braced hp hungry hbrace hshuns).map _

/-- A conditional looks ahead for `sino`. -/
theorem steady_choose (hblock : Steady [] (block p)) : Steady [.keyword .sino] (choose p) :=
  (steady_word _).bind fun _ => (steady_mark _).bind fun _ => steady_condition.bind fun _ =>
  (steady_mark _).bind fun _ => hblock.bind fun _ ts =>
    steadyAt_skip (fun _ tail _ => (hblock.bind fun _ => steady_pure _).mono (by simp) tail)
      (List.mem_singleton.mpr rfl)

theorem rereads_refuse (expected : String) :
    Rereads ahead (refuse expected : Parser Instruction)
  | [] => ⟨[], rereadsAt_nil rfl⟩
  | _ :: _ => ⟨[], rereadsAt_refused fun _ => rfl⟩

theorem rereads_refuseFor (fault : SyntaxFault) :
    Rereads ahead (refuseFor fault : Parser Instruction)
  | [] => ⟨[], rereadsAt_nil rfl⟩
  | _ :: _ => ⟨[], rereadsAt_refused fun _ => rfl⟩

theorem starts_of_use {i : Instruction} (h : use ts = .ok i rest) : Starts (.keyword .usa) ts := by
  obtain ⟨name, span, rfl, hleaves⟩ := use_eq_ok_iff.mp h
  exact hleaves.starts_iff.mpr rfl

theorem instructionWith_of_usa (h : Starts (.keyword .usa) ts) : instructionWith p ts = use ts :=
  peek_bind_of_starts h

theorem instructionWith_of_si (h : Starts (.keyword .si) ts) : instructionWith p ts = p ts := by
  have husa : ¬ Starts (.keyword .usa) ts := fun husa => nomatch husa.symm.trans h
  exact (peek_bind_of_not_starts husa).trans (peek_bind_of_starts h)

/-- Where neither kind of instruction starts, both words are named. -/
theorem instructionWith_of_not_starts (husa : ¬ Starts (.keyword .usa) ts)
    (hsi : ¬ Starts (.keyword .si) ts) : instructionWith p ts = refuse "'usa' or 'si'" ts :=
  (peek_bind_of_not_starts husa).trans (peek_bind_of_not_starts hsi)

/-- An instruction, where the reader for the conditional lacks something or refuses the
conditional: in place of that there could be the use of an action. -/
theorem steady_instructionWith (hreads : Rereads ahead p) (hungry : Hungry p)
    (hfault : ∀ ⦃ts⦄, CompletesAt p ts ∨ ∀ ⦃fault rest⦄, p ts = .error fault rest → rest = ts) :
    Steady ahead (instructionWith p) := by
  intro ts
  by_cases husa : Starts (.keyword .usa) ts
  · exact (steady_use.mono (List.nil_subset _) ts).of_starts husa ⟨_, rfl⟩
      (fun _ _ _ => starts_of_use) fun ts => instructionWith_of_usa
  have huse : ∃ ts i, instructionWith p ts = .ok i [] := by
    obtain ⟨word, i, hword⟩ := steady_use.exists_ok
    exact ⟨word, i, (instructionWith_of_usa (starts_of_use hword)).trans hword⟩
  by_cases hsi : Starts (.keyword .si) ts
  · have hrun (ts' : List Token) (hhead : ts'.head? = ts.head?) : instructionWith p ts' = p ts' :=
      instructionWith_of_si (by rwa [Starts, hhead])
    obtain ⟨taken, htaken⟩ := hreads ts
    refine ⟨⟨taken, htaken.congr_head? hungry hrun⟩, ?_⟩
    obtain hcompletes | hrefused := @hfault ts
    · intro fault rest h
      rw [hrun ts rfl] at h
      obtain ⟨_ | ⟨token, taken⟩, more, i, rfl, hok⟩ := hcompletes h
      · obtain ⟨word, i, hword⟩ := huse
        exact ⟨[], word, i, rfl, hword⟩
      · exact ⟨token :: taken, more, i, rfl, (hrun (token :: (taken ++ more)) rfl).trans hok⟩
    · exact completesAt_of_refused huse fun _ _ h => hrefused ((hrun ts rfl).symm.trans h)
  · have hrun (ts' : List Token) (hhead : ts'.head? = ts.head?) :
        instructionWith p ts' = refuse "'usa' or 'si'" ts' :=
      instructionWith_of_not_starts (by rwa [Starts, hhead]) (by rwa [Starts, hhead])
    have hrefuse : Rereads ahead (refuse "'usa' or 'si'" : Parser Instruction) := rereads_refuse _
    obtain ⟨taken, htaken⟩ := hrefuse ts
    refine ⟨⟨taken, htaken.congr_head? ⟨_, rfl⟩ hrun⟩, completesAt_of_refused huse fun _ _ h => ?_⟩
    rw [hrun ts rfl] at h
    cases ts <;> cases h <;> rfl

/-- No instruction starts with a word or a sign that bounds a row of them. -/
theorem shuns_instruction (levels : Nat) : Shuns Bounds (instruction levels) := by
  intro kind hkind ts i rest hrun
  obtain ⟨hwritten, hleaves, -⟩ := (readsInstructions_instruction levels).mp hrun
  rw [← List.append_nil i.leaves] at hleaves
  exact avoids_instruction.not_starts hwritten hleaves hkind

theorem hungry_instruction (levels : Nat) : Hungry (instruction levels) := by
  cases levels <;> exact ⟨_, rfl⟩

/-- Instructions, by induction on the levels of nesting that are left: where none is, a conditional
is refused. -/
theorem steady_instruction (levels : Nat) : Steady [.keyword .sino] (instruction levels) := by
  induction levels with
  | zero =>
    refine steady_instructionWith (rereads_refuseFor _) ⟨_, rfl⟩ fun ts => .inr fun _ _ h => ?_
    cases ts <;> cases h <;> rfl
  | succ levels ih =>
    have hblock := steady_block ih (hungry_instruction levels) (by simp) (shuns_instruction levels)
    have hchoose := steady_choose hblock
    exact steady_instructionWith hchoose.rereads ⟨_, rfl⟩ fun ts => .inl (hchoose ts).completes

theorem steady_script : Steady [] script :=
  (steady_word _).bind fun _ => (steady_ident _).bind fun ⟨_, _⟩ =>
  (steady_block (steady_instruction _) (hungry_instruction _) (by simp)
    (shuns_instruction _)).bind fun _ => steady_pure _

theorem steady_fight : Steady [] fight :=
  (steady_word _).bind fun _ => steady_braced steady_script ⟨_, rfl⟩ (by simp)
    ((Reads.shuns (reads_id script_eq_ok_iff) avoids_script).mono (by simp))

theorem steady_matchup : Steady [] matchup :=
  (steady_word _).bind fun _ => (steady_mark _).bind fun _ => (steady_word _).bind fun _ =>
  (steady_mark _).bind fun _ => (steady_ident _).bind fun ⟨_, _⟩ => (steady_word _).bind fun _ =>
  (steady_ident _).bind fun ⟨_, _⟩ => (steady_mark _).bind fun _ => (steady_word _).bind fun _ =>
  (steady_mark _).bind fun _ => (steady_ident _).bind fun ⟨_, _⟩ => (steady_mark _).bind fun _ =>
  (steady_word _).bind fun _ => (steady_mark _).bind fun _ => (steady_number _).bind fun _ =>
  (steady_mark _).bind fun _ => (steady_mark _).bind fun _ => steady_pure _

theorem steady_simulation : Steady [] simulation :=
  (steady_word _).bind fun _ => (steady_mark _).bind fun _ => steady_matchup.bind fun _ =>
  steady_fight.bind fun _ => (steady_mark _).bind fun _ => steady_pure _

end Lucha.Parser
