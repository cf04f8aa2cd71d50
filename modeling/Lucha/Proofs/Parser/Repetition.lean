import Lucha.Proofs.Parser.Reading

/-!
# What the readers of repetitions read

A reader `Reads` some trees when it answers the value of a tree exactly where the tokens begin with
the leaves of the tree. Then items with commas between them and items between braces are read as
their trees in a row. Repetitions count down from the number of tokens left, and every round takes a
token, so the count never ends a repetition.

An item between braces may be *open*: it ends where it could still go on with `sino`, so reading it
says that no `sino` follows. What follows it between the braces is another item or the closing
brace, and neither starts with `sino` (`braced_eq_ok_iff_of_open`).
-/

namespace Lucha.Parser

open Grammar (OneOrMore separated)

variable {α β τ : Type} {ts rest : List Token} {item : Parser α} {Valid : τ → Prop}
  {leaves : τ → List Leaf} {value : τ → α}

/-- The reader answers the values of valid trees, and takes the tokens of their leaves. -/
def Reads (p : Parser α) (Valid : τ → Prop) (leaves : τ → List Leaf) (value : τ → α) : Prop :=
  ∀ {ts rest a}, p ts = .ok a rest ↔ ∃ t, (Valid t ∧ Spells (leaves t) ts rest) ∧ value t = a

/-- A reader that answers what it reads. -/
theorem reads_id {p : Parser τ}
    (h : ∀ {ts rest t}, p ts = .ok t rest ↔ Valid t ∧ Spells (leaves t) ts rest) :
    Reads p Valid leaves id := by
  intro ts rest a
  rw [h]
  simp

/-! ### Commas -/

/-- More items after commas answer the values of valid trees, up to a token that is no comma. The
bound is no less than the number of tokens, so it does not end them. -/
theorem afterCommas_eq_ok_iff (hitem : Reads item Valid leaves value) {bound : Nat}
    (hbound : ts.length ≤ bound) {as : List α} :
    afterCommas item bound ts = .ok as rest ↔
      ∃ trees : List τ, ((∀ t ∈ trees, Valid t) ∧
        Spells (trees.flatMap fun t => .mark .comma :: leaves t) ts rest ∧
        ¬ Starts (.symbol .comma) rest) ∧ trees.map value = as := by
  induction bound generalizing ts as with
  | zero =>
    obtain rfl := List.eq_nil_of_length_eq_zero (Nat.le_zero.mp hbound)
    rw [afterCommas, pure_eq_ok_iff]
    constructor
    · rintro ⟨rfl, rfl⟩
      exact ⟨[], by simp [Spells, not_starts_nil], rfl⟩
    · rintro ⟨_ | ⟨t, trees⟩, ⟨-, hspells, -⟩, rfl⟩
      · exact ⟨rfl, hspells⟩
      · obtain ⟨_, _, ⟨⟩, -⟩ := hspells
  | succ bound ih =>
    rw [afterCommas, skip_bind_eq_ok_iff]
    constructor
    · rintro (⟨mid, hcomma, hread⟩ | ⟨hstop, hpure⟩)
      · obtain ⟨_, last, hfirst, hread⟩ := bind_eq_ok_iff.mp hread
        obtain ⟨_, _, hmore, hpure⟩ := bind_eq_ok_iff.mp hread
        obtain ⟨rfl, rfl⟩ := pure_eq_ok_iff.mp hpure
        obtain ⟨t, ⟨hvalid, hspells⟩, rfl⟩ := hitem.mp hfirst
        -- the comma took a token, so what is left is within the bound
        have htaken := (spells_cons.mpr ⟨mid, hcomma, hspells⟩).length_lt
        have hlast : last.length ≤ bound := by omega
        obtain ⟨trees, ⟨hall, htrees, hstop⟩, rfl⟩ := (ih hlast).mp hmore
        have hleaves := spells_append.mpr
          ⟨last, spells_cons.mpr ⟨mid, hcomma, hspells⟩, htrees⟩
        exact ⟨t :: trees, ⟨List.forall_mem_cons.mpr ⟨hvalid, hall⟩, hleaves, hstop⟩, rfl⟩
      · obtain ⟨rfl, rfl⟩ := pure_eq_ok_iff.mp hpure
        exact ⟨[], ⟨by simp, rfl, hstop⟩, rfl⟩
    · rintro ⟨_ | ⟨t, trees⟩, ⟨hall, hspells, hstop⟩, rfl⟩
      · cases spells_nil.mp hspells
        exact .inr ⟨hstop, rfl⟩
      · rw [List.flatMap_cons, List.cons_append] at hspells
        obtain ⟨mid, hcomma, hspells⟩ := spells_cons.mp hspells
        obtain ⟨last, hfirst, htrees⟩ := spells_append.mp hspells
        obtain ⟨hvalid, hall⟩ := List.forall_mem_cons.mp hall
        have htaken := (spells_cons.mpr ⟨mid, hcomma, hfirst⟩).length_lt
        have hlast : last.length ≤ bound := by omega
        have hread := hitem.mpr ⟨t, ⟨hvalid, hfirst⟩, rfl⟩
        have hmore := (ih hlast).mpr ⟨trees, ⟨hall, htrees, hstop⟩, rfl⟩
        exact .inl ⟨mid, hcomma, bind_ok hread (bind_ok hmore rfl)⟩

/-- Items with commas between them are read up to where no comma follows. -/
theorem commaSeparated_eq_ok_iff (hitem : Reads item Valid leaves value) {as : List α} :
    commaSeparated item ts = .ok as rest ↔
      ∃ trees, (OneOrMore Valid trees ∧ Spells (separated leaves trees) ts rest ∧
        ¬ Starts (.symbol .comma) rest) ∧ trees.map value = as := by
  rw [commaSeparated, bind_eq_ok_iff]
  constructor
  · rintro ⟨_, mid, hfirst, hread⟩
    rw [get_bind_eq_ok_iff] at hread
    obtain ⟨_, _, hmore, hpure⟩ := bind_eq_ok_iff.mp hread
    obtain ⟨rfl, rfl⟩ := pure_eq_ok_iff.mp hpure
    obtain ⟨t, ⟨hvalid, hspells⟩, rfl⟩ := hitem.mp hfirst
    obtain ⟨trees, ⟨hall, htrees, hstop⟩, rfl⟩ :=
      (afterCommas_eq_ok_iff hitem (Nat.le_refl _)).mp hmore
    have hwritten : OneOrMore Valid (t :: trees) :=
      ⟨List.cons_ne_nil _ _, List.forall_mem_cons.mpr ⟨hvalid, hall⟩⟩
    have hleaves := spells_append.mpr ⟨mid, hspells, htrees⟩
    exact ⟨t :: trees, ⟨hwritten, hleaves, hstop⟩, rfl⟩
  · rintro ⟨_ | ⟨t, trees⟩, ⟨⟨hne, hall⟩, hspells, hstop⟩, rfl⟩
    · exact absurd rfl hne
    · obtain ⟨mid, hfirst, htrees⟩ := spells_append.mp hspells
      obtain ⟨hvalid, hall⟩ := List.forall_mem_cons.mp hall
      refine ⟨_, mid, hitem.mpr ⟨t, ⟨hvalid, hfirst⟩, rfl⟩, get_bind_eq_ok_iff.mpr ?_⟩
      have hmore := (afterCommas_eq_ok_iff hitem (Nat.le_refl _)).mpr
        ⟨trees, ⟨hall, htrees, hstop⟩, rfl⟩
      exact bind_ok hmore rfl

/-- Items with commas between them and another mark behind them. -/
theorem commaSeparated_bind_eq_ok_iff (hitem : Reads item Valid leaves value) {m : Symbol}
    (hm : m ≠ .comma) {f : List α → Parser β} {b : β} :
    (commaSeparated item >>= fun as => mark m >>= fun _ => f as) ts = .ok b rest ↔
      ∃ trees mid, (OneOrMore Valid trees ∧ Spells (separated leaves trees ++ [.mark m]) ts mid) ∧
        f (trees.map value) mid = .ok b rest := by
  rw [bind_eq_ok_iff]
  simp only [commaSeparated_eq_ok_iff hitem, mark_bind_eq_ok_iff]
  constructor
  · rintro ⟨_, stop, ⟨trees, ⟨hwritten, hleaves, -⟩, rfl⟩, mid, hmark, hf⟩
    exact ⟨trees, mid, ⟨hwritten, spells_append.mpr ⟨stop, hleaves, hmark⟩⟩, hf⟩
  · rintro ⟨trees, mid, ⟨hwritten, hleaves⟩, hf⟩
    obtain ⟨stop, hleaves, hmark⟩ := spells_append.mp hleaves
    have hstop : ¬ Starts (.symbol .comma) stop := fun hstarts =>
      hm (TokenKind.symbol.inj (hmark.starts_iff.mp hstarts))
    exact ⟨_, stop, ⟨trees, ⟨hwritten, hleaves, hstop⟩, rfl⟩, mid, hmark, hf⟩

/-! ### Braces -/

/-- The reader answers the values of valid trees, and does so for an open one only where no `sino`
follows. -/
def ReadsOpen (p : Parser α) (Valid Open : τ → Prop) (leaves : τ → List Leaf) (value : τ → α) :
    Prop :=
  ∀ {ts rest a}, p ts = .ok a rest ↔
    ∃ t, (Valid t ∧ Spells (leaves t) ts rest ∧ (Open t → ¬ Starts (.keyword .sino) rest)) ∧
      value t = a

/-- Where an item between braces does not start: at the brace that ends them, and at what could
belong to the item before. -/
abbrev Bounds : List TokenKind :=
  [.symbol .closeBrace, .keyword .sino]

/-- The tokens behind an item between braces do not start with `sino`. -/
private theorem not_starts_sino (havoids : Avoids Bounds Valid leaves) {trees : List τ}
    (hall : ∀ t ∈ trees, Valid t)
    (h : Spells (trees.flatMap leaves ++ [.mark .closeBrace]) ts rest) :
    ¬ Starts (.keyword .sino) ts := by
  cases trees with
  | nil => exact fun hstarts => nomatch h.starts_iff.mp hstarts
  | cons t trees =>
    rw [List.flatMap_cons, List.append_assoc] at h
    exact havoids.not_starts (hall t List.mem_cons_self) h (by simp)

/-- Items up to a closing brace answer the values of valid trees. No tree starts with the brace or
with `sino`, so the brace ends them and no open tree is continued by the next one. -/
private theorem upToBrace_eq_ok_iff {Open : τ → Prop}
    (hitem : ReadsOpen item Valid Open leaves value) (havoids : Avoids Bounds Valid leaves)
    {bound : Nat} (hbound : ts.length ≤ bound) {as : List α} :
    upToBrace item bound ts = .ok as rest ↔
      ∃ trees : List τ, ((∀ t ∈ trees, Valid t) ∧
        Spells (trees.flatMap leaves ++ [.mark .closeBrace]) ts rest) ∧ trees.map value = as := by
  induction bound generalizing ts as with
  | zero =>
    -- there are no tokens left, and both an item and the brace would take one
    obtain rfl := List.eq_nil_of_length_eq_zero (Nat.le_zero.mp hbound)
    rw [upToBrace, bind_eq_ok_iff]
    constructor
    · rintro ⟨_, mid, hfirst, -⟩
      obtain ⟨t, ⟨hvalid, hspells, -⟩, -⟩ := hitem.mp hfirst
      exact absurd (havoids.length_lt hvalid hspells) (Nat.not_lt_zero _)
    · rintro ⟨trees, ⟨-, hspells⟩, -⟩
      have hlength := hspells.length_eq
      simp only [List.length_append, List.length_singleton, List.length_nil] at hlength
      omega
  | succ bound ih =>
    rw [upToBrace, skip_bind_eq_ok_iff]
    constructor
    · rintro (⟨mid, hbrace, hpure⟩ | ⟨-, hread⟩)
      · obtain ⟨rfl, rfl⟩ := pure_eq_ok_iff.mp hpure
        exact ⟨[], ⟨by simp, hbrace⟩, rfl⟩
      · obtain ⟨_, mid, hfirst, hread⟩ := bind_eq_ok_iff.mp hread
        obtain ⟨_, _, hmore, hpure⟩ := bind_eq_ok_iff.mp hread
        obtain ⟨rfl, rfl⟩ := pure_eq_ok_iff.mp hpure
        obtain ⟨t, ⟨hvalid, hspells, -⟩, rfl⟩ := hitem.mp hfirst
        have htaken := havoids.length_lt hvalid hspells
        have hmid : mid.length ≤ bound := by omega
        obtain ⟨trees, ⟨hall, htrees⟩, rfl⟩ := (ih hmid).mp hmore
        refine ⟨t :: trees, ⟨List.forall_mem_cons.mpr ⟨hvalid, hall⟩, ?_⟩, rfl⟩
        rw [List.flatMap_cons, List.append_assoc]
        exact spells_append.mpr ⟨mid, hspells, htrees⟩
    · rintro ⟨_ | ⟨t, trees⟩, ⟨hall, hspells⟩, rfl⟩
      · exact .inl ⟨rest, hspells, rfl⟩
      · obtain ⟨hvalid, hall⟩ := List.forall_mem_cons.mp hall
        rw [List.flatMap_cons, List.append_assoc] at hspells
        have hbrace : ¬ Starts (.symbol .closeBrace) ts :=
          havoids.not_starts hvalid hspells (by simp)
        obtain ⟨mid, hfirst, htrees⟩ := spells_append.mp hspells
        have htaken := havoids.length_lt hvalid hfirst
        have hmid : mid.length ≤ bound := by omega
        have hstop := not_starts_sino havoids hall htrees
        have hread := hitem.mpr ⟨t, ⟨hvalid, hfirst, fun _ => hstop⟩, rfl⟩
        have hmore := (ih hmid).mpr ⟨trees, ⟨hall, htrees⟩, rfl⟩
        exact .inr ⟨hbrace, bind_ok hread (bind_ok hmore rfl)⟩

/-- Items between braces are read up to the closing brace, also where they may be open. -/
theorem braced_eq_ok_iff_of_open {Open : τ → Prop}
    (hitem : ReadsOpen item Valid Open leaves value) (havoids : Avoids Bounds Valid leaves)
    {as : List α} :
    braced item ts = .ok as rest ↔
      ∃ trees, (OneOrMore Valid trees ∧ Spells (Grammar.braced (trees.flatMap leaves)) ts rest) ∧
        trees.map value = as := by
  rw [braced, mark_bind_eq_ok_iff]
  constructor
  · rintro ⟨start, hbrace, hread⟩
    obtain ⟨_, mid, hfirst, hread⟩ := bind_eq_ok_iff.mp hread
    rw [get_bind_eq_ok_iff] at hread
    obtain ⟨_, _, hmore, hpure⟩ := bind_eq_ok_iff.mp hread
    obtain ⟨rfl, rfl⟩ := pure_eq_ok_iff.mp hpure
    obtain ⟨t, ⟨hvalid, hspells, -⟩, rfl⟩ := hitem.mp hfirst
    obtain ⟨trees, ⟨hall, htrees⟩, rfl⟩ :=
      (upToBrace_eq_ok_iff hitem havoids (Nat.le_refl _)).mp hmore
    have hwritten : OneOrMore Valid (t :: trees) :=
      ⟨List.cons_ne_nil _ _, List.forall_mem_cons.mpr ⟨hvalid, hall⟩⟩
    refine ⟨t :: trees, ⟨hwritten, ?_⟩, rfl⟩
    rw [Grammar.braced, List.flatMap_cons, List.append_assoc]
    exact spells_cons.mpr ⟨start, hbrace, spells_append.mpr ⟨mid, hspells, htrees⟩⟩
  · rintro ⟨_ | ⟨t, trees⟩, ⟨⟨hne, hall⟩, hspells⟩, rfl⟩
    · exact absurd rfl hne
    · rw [Grammar.braced, List.flatMap_cons, List.append_assoc] at hspells
      obtain ⟨start, hbrace, hspells⟩ := spells_cons.mp hspells
      obtain ⟨mid, hfirst, htrees⟩ := spells_append.mp hspells
      obtain ⟨hvalid, hall⟩ := List.forall_mem_cons.mp hall
      have hstop := not_starts_sino havoids hall htrees
      have hread := hitem.mpr ⟨t, ⟨hvalid, hfirst, fun _ => hstop⟩, rfl⟩
      have hmore := (upToBrace_eq_ok_iff hitem havoids (Nat.le_refl _)).mpr
        ⟨trees, ⟨hall, htrees⟩, rfl⟩
      exact ⟨start, hbrace, bind_ok hread (get_bind_eq_ok_iff.mpr (bind_ok hmore rfl))⟩

/-- Items between braces are read up to the closing brace. -/
theorem braced_eq_ok_iff (hitem : Reads item Valid leaves value)
    (havoids : Avoids Bounds Valid leaves) {as : List α} :
    braced item ts = .ok as rest ↔
      ∃ trees, (OneOrMore Valid trees ∧ Spells (Grammar.braced (trees.flatMap leaves)) ts rest) ∧
        trees.map value = as := by
  -- no tree of such a reader is open
  have hopen : ReadsOpen item Valid (fun _ => False) leaves value := by
    intro ts rest a
    simpa using @hitem ts rest a
  exact braced_eq_ok_iff_of_open hopen havoids

end Lucha.Parser
