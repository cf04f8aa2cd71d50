import Lucha.Proofs.Parser.Program

/-!
# Trees are determined by their tokens

Trees are *unambiguous* when no tokens begin with those of two of them (`Unambiguous`), not even if
one takes more tokens than the other. Where a reader answers its trees themselves this is what it
means to have one answer (`Unambiguous.of_reads`); what is put together from unambiguous parts, one
behind the other or up to a token that none starts with, is unambiguous again. So a program has one
tree (`Tree.Derives.unique`), although different trees may denote the same program.
-/

namespace Lucha.Grammar

open Lucha.Parser (Reads Trait)

variable {σ τ : Type} {ts rest rest' : List Token} {Valid : τ → Prop} {leaves : τ → List Leaf}

/-- Tokens that begin with those of a valid tree determine the tree, and what is left of them. -/
def Unambiguous (Valid : τ → Prop) (leaves : τ → List Leaf) : Prop :=
  ∀ ⦃t u ts rest rest'⦄, Valid t → Valid u → Spells (leaves t) ts rest →
    Spells (leaves u) ts rest' → t = u ∧ rest = rest'

namespace Unambiguous

/-- What a reader answers is determined by the tokens. -/
theorem of_reads {p : Parser τ} (hp : Reads p Valid leaves id) : Unambiguous Valid leaves := by
  intro t u ts rest rest' ht hu hspells hspells'
  have hread : p ts = .ok t rest := hp.mpr ⟨t, ⟨ht, hspells⟩, rfl⟩
  have hread' : p ts = .ok u rest' := hp.mpr ⟨u, ⟨hu, hspells'⟩, rfl⟩
  cases hread.symm.trans hread'
  exact ⟨rfl, rfl⟩

/-- Trees that are told apart by what stands for them. -/
theorem comap (h : Unambiguous Valid leaves) {f : σ → τ} (hf : f.Injective) :
    Unambiguous (fun s => Valid (f s)) fun s => leaves (f s) := by
  intro s s' ts rest rest' hs hs' hspells hspells'
  obtain ⟨heq, hrest⟩ := h hs hs' hspells hspells'
  exact ⟨hf heq, hrest⟩

/-- One leaf before each tree. -/
theorem cons (h : Unambiguous Valid leaves) (leaf : Leaf) :
    Unambiguous Valid fun t => leaf :: leaves t := by
  intro t u ts rest rest' ht hu hspells hspells'
  obtain ⟨mid, hleaf, hspells⟩ := spells_cons.mp hspells
  obtain ⟨mid', hleaf', hspells'⟩ := spells_cons.mp hspells'
  cases hleaf.rest_unique hleaf'
  exact h ht hu hspells hspells'

/-- Some leaves behind each tree. -/
theorem append_const (h : Unambiguous Valid leaves) (ls : List Leaf) :
    Unambiguous Valid fun t => leaves t ++ ls := by
  intro t u ts rest rest' ht hu hspells hspells'
  obtain ⟨mid, hspells, hls⟩ := spells_append.mp hspells
  obtain ⟨mid', hspells', hls'⟩ := spells_append.mp hspells'
  obtain ⟨rfl, rfl⟩ := h ht hu hspells hspells'
  exact ⟨rfl, hls.rest_unique hls'⟩

/-- Trees one behind the other. -/
theorem append {Valid' : σ → Prop} {leaves' : σ → List Leaf} (h : Unambiguous Valid leaves)
    (h' : Unambiguous Valid' leaves') :
    Unambiguous (fun p : τ × σ => Valid p.1 ∧ Valid' p.2) fun p => leaves p.1 ++ leaves' p.2 := by
  rintro ⟨t, s⟩ ⟨u, s'⟩ ts rest rest' ⟨ht, hs⟩ ⟨hu, hs'⟩ hspells hspells'
  obtain ⟨mid, hfirst, hspells⟩ := spells_append.mp hspells
  obtain ⟨mid', hfirst', hspells'⟩ := spells_append.mp hspells'
  obtain ⟨rfl, rfl⟩ := h ht hu hfirst hfirst'
  obtain ⟨rfl, hrest⟩ := h' hs hs' hspells hspells'
  exact ⟨rfl, hrest⟩

/-- Trees up to a token that none of them starts with. -/
theorem upTo (h : Unambiguous Valid leaves) {kinds : List TokenKind}
    (havoids : Avoids kinds Valid leaves) (stop : Leaf) (hkind : stop.kind ∈ kinds) :
    Unambiguous (fun trees : List τ => ∀ t ∈ trees, Valid t)
      fun trees => trees.flatMap leaves ++ [stop] := by
  have hstop {t : τ} {trees : List τ} {ts rest mid : List Token} (ht : Valid t)
      (hspells : Spells ((t :: trees).flatMap leaves ++ [stop]) ts rest)
      (hspells' : Spells [stop] ts mid) : False := by
    rw [List.flatMap_cons, List.append_assoc] at hspells
    exact havoids.not_starts ht hspells hkind (hspells'.starts_iff.mpr rfl)
  -- both lists end at the same place: another tree and the stop do not start alike
  intro trees
  induction trees with
  | nil =>
    rintro (_ | ⟨u, others⟩) ts rest rest' - hothers hspells hspells'
    · exact ⟨rfl, hspells.rest_unique hspells'⟩
    · exact (hstop (hothers u List.mem_cons_self) hspells' hspells).elim
  | cons t trees ih =>
    rintro (_ | ⟨u, others⟩) ts rest rest' htrees hothers hspells hspells'
    · exact (hstop (htrees t List.mem_cons_self) hspells hspells').elim
    · obtain ⟨ht, htail⟩ := List.forall_mem_cons.mp htrees
      obtain ⟨hu, htail'⟩ := List.forall_mem_cons.mp hothers
      simp only [List.flatMap_cons, List.append_assoc] at hspells hspells'
      obtain ⟨mid, hfirst, hmore⟩ := spells_append.mp hspells
      obtain ⟨mid', hfirst', hmore'⟩ := spells_append.mp hspells'
      obtain ⟨rfl, rfl⟩ := h ht hu hfirst hfirst'
      obtain ⟨rfl, rfl⟩ := ih htail htail' hmore hmore'
      exact ⟨rfl, rfl⟩

/-- Trees with commas between them, up to another mark. -/
theorem separated (h : Unambiguous Valid leaves) {m : Symbol} (hm : m ≠ .comma) :
    Unambiguous (OneOrMore Valid) fun trees => Grammar.separated leaves trees ++ [.mark m] := by
  have havoids : Avoids [.symbol m] Valid fun t => .mark .comma :: leaves t :=
    fun t _ => ⟨_, _, rfl, by simpa [Leaf.mark] using hm.symm⟩
  have hmore := (h.cons (.mark .comma)).upTo havoids (.mark m) (List.mem_singleton.mpr rfl)
  rintro (_ | ⟨t, trees⟩) (_ | ⟨u, others⟩) ts rest rest' ⟨hne, htrees⟩ ⟨hne', hothers⟩ hspells
    hspells'
  · exact absurd rfl hne
  · exact absurd rfl hne
  · exact absurd rfl hne'
  · obtain ⟨ht, htail⟩ := List.forall_mem_cons.mp htrees
    obtain ⟨hu, htail'⟩ := List.forall_mem_cons.mp hothers
    simp only [Grammar.separated, List.append_assoc] at hspells hspells'
    obtain ⟨mid, hfirst, hrest⟩ := spells_append.mp hspells
    obtain ⟨mid', hfirst', hrest'⟩ := spells_append.mp hspells'
    obtain ⟨rfl, rfl⟩ := h ht hu hfirst hfirst'
    obtain ⟨rfl, rfl⟩ := hmore htail htail' hrest hrest'
    exact ⟨rfl, rfl⟩

/-- Trees between braces. -/
theorem braced (h : Unambiguous Valid leaves)
    (havoids : Avoids Parser.Bounds Valid leaves) :
    Unambiguous (OneOrMore Valid) fun trees => Grammar.braced (trees.flatMap leaves) := by
  have hitems := (h.upTo havoids (.mark .closeBrace) (by simp [Leaf.mark])).cons (.mark .openBrace)
  exact fun _ _ _ _ _ htrees hothers => hitems htrees.2 hothers.2

end Unambiguous

/-! ### The trees of a program -/

theorem unambiguous_identAt :
    Unambiguous (fun _ => True) fun x : String × Span => [.identAt x.1 x.2] := by
  rintro ⟨name, span⟩ ⟨name', span'⟩ ts rest rest' - - hspells hspells'
  cases (spells_kept.mp hspells).symm.trans (spells_kept.mp hspells')
  exact ⟨rfl, rfl⟩

/-- The attributes of a strike end at the parenthesis. -/
theorem Strike.unambiguous : Unambiguous Strike.Written Strike.leaves := by
  have htraits := (Unambiguous.of_reads Parser.reads_trait).separated (m := .closeParen) (by decide)
  have hparts := unambiguous_identAt.append (htraits.cons (.mark .openParen))
  -- a strike is its name and its attributes, which are told apart one behind the other
  have hinj : Function.Injective fun s : Strike => ((s.name, s.span), s.traits) := by
    rintro ⟨⟩ ⟨⟩ ⟨⟩
    rfl
  intro s s' ts rest rest' hs hs'
  exact hparts.comap hinj ⟨trivial, hs, by simp⟩ ⟨trivial, hs', by simp⟩

/-- The word at the start of a line of actions tells whether strikes, kicks or a block follow. -/
theorem ActionLine.unambiguous : Unambiguous ActionLine.Written ActionLine.leaves := by
  have hstrikes := (Strike.unambiguous.separated (m := .semicolon) (by decide)).cons (.mark .colon)
  have hgolpe := hstrikes.cons (.word .golpe)
  have hpatada := hstrikes.cons (.word .patada)
  have hbloqueo := ((unambiguous_identAt.append_const [.mark .semicolon]).cons
    (.mark .colon)).cons (.word .bloqueo)
  -- lines of different kinds start with different words
  rintro (strikes | strikes | ⟨name, span⟩) (strikes' | strikes' | ⟨name', span'⟩) ts rest rest'
    hline hline' hspells hspells' <;>
    try cases hspells.starts_iff.mp (hspells'.starts_iff.mpr rfl)
  · obtain ⟨rfl, rfl⟩ := hgolpe hline hline' hspells hspells'
    exact ⟨rfl, rfl⟩
  · obtain ⟨rfl, rfl⟩ := hpatada hline hline' hspells hspells'
    exact ⟨rfl, rfl⟩
  · obtain ⟨heq, rfl⟩ := hbloqueo (t := (name, span)) (u := (name', span')) trivial trivial hspells
      hspells'
    cases heq
    exact ⟨rfl, rfl⟩

/-- The actions of a definition end at their brace, and so do its combos. -/
theorem Definition.unambiguous : Unambiguous Definition.Written Definition.leaves := by
  have hstats : Unambiguous (fun _ => True)
      fun x : Quantity × Quantity => statsLeaves x.1 x.2 :=
    .of_reads (p := Parser.stats) (Parser.reads_id (by simp [Parser.stats_eq_ok_iff]))
  have hlines := (ActionLine.unambiguous.braced Parser.avoids_action).cons (.word .acciones)
  have hcombos := ((Unambiguous.of_reads Parser.reads_combo).braced Parser.avoids_combo).cons
    (.word .combos)
  have hbody := (((hstats.append hlines).append hcombos).append_const [.mark .closeBrace]).cons
    (.mark .openBrace)
  have hparts := (unambiguous_identAt.append hbody).cons (.word .luchador)
  have hinj : Function.Injective fun d : Definition =>
      ((d.name, d.span), ((d.hp, d.stamina), d.lines), d.combos) := by
    rintro ⟨⟩ ⟨⟩ ⟨⟩
    rfl
  intro d d' ts rest rest' hd hd'
  exact hparts.comap hinj ⟨trivial, ⟨trivial, hd.1⟩, hd.2⟩ ⟨trivial, ⟨trivial, hd'.1⟩, hd'.2⟩

/-- The definitions of a program go up to the word that announces the simulation. -/
private theorem Tree.leaves_eq (t : Tree) :
    t.leaves = (t.definitions.flatMap Definition.leaves ++ [.word .simulacion])
      ++ Grammar.braced (t.matchup.leaves
        ++ .word .pelea :: Grammar.braced (t.scripts.flatMap Script.leaves)) := by
  simp [leaves]

/-- The definitions of a tree go on as long as they are announced, and the simulation stands behind
them. -/
theorem Tree.unambiguous : Unambiguous Tree.Written Tree.leaves := by
  have havoids : Avoids [.keyword .simulacion] Definition.Written Definition.leaves :=
    fun d _ => ⟨_, _, rfl, by simp [Leaf.word]⟩
  have hdefinitions := Definition.unambiguous.upTo havoids (.word .simulacion)
    (List.mem_singleton.mpr rfl)
  have hmatchup : Unambiguous (fun _ => True) Matchup.leaves :=
    .of_reads (p := Parser.matchup) (Parser.reads_id (by simp [Parser.matchup_eq_ok_iff]))
  have hscripts := ((Unambiguous.of_reads (Parser.reads_id Parser.script_eq_ok_iff)).braced
    Parser.avoids_script).cons (.word .pelea)
  have hbody := ((hmatchup.append hscripts).append_const [.mark .closeBrace]).cons
    (.mark .openBrace)
  have hinj : Function.Injective fun t : Tree => (t.definitions, t.matchup, t.scripts) := by
    rintro ⟨⟩ ⟨⟩ ⟨⟩
    rfl
  intro t t' ts rest rest' ht ht' hspells hspells'
  rw [Tree.leaves_eq] at hspells hspells'
  exact (hdefinitions.append hbody).comap hinj ⟨ht.1.2, trivial, ht.2⟩ ⟨ht'.1.2, trivial, ht'.2⟩
    hspells hspells'

/-- Tokens have one tree at most. -/
theorem Tree.Derives.unique {t t' : Tree} {ts : List Token} (h : t.Derives ts)
    (h' : t'.Derives ts) : t = t' :=
  (Tree.unambiguous h.1 h'.1 h.2 h'.2).1

end Lucha.Grammar
