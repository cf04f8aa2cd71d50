import Lucha.Proofs.Grammar.Spans
import Lucha.Proofs.Grammar.Unambiguous
import Lucha.Proofs.Token.Lexer

/-!
# The language of fight programs

A source text holds a program if and only if a tree derives its tokens and is consistent, and then
it holds the one program that the tree denotes (`Program.parse_eq_ok_iff`). Both halves of that are
about kinds of tokens: which programs there are does not depend on where the tokens stand
(`Program.parse_iff_derives_and_denotes`).
-/

namespace Lucha

open Grammar (Definition Tree)

namespace Grammar

/-- A tree denotes one program at most. -/
theorem Tree.Denotes.unique {t : Tree} {p q : Program} (hp : t.Denotes p) (hq : t.Denotes q) :
    p = q := by
  obtain ⟨fs, hfs, hheld⟩ := hp.fighters
  obtain ⟨fs', hfs', hheld'⟩ := hq.fighters
  have heq : fs = fs' := List.right_unique_forall₂' (fun _ _ _ h h' => h.unique h') hfs hfs'
  subst heq
  have hfighters := hheld.unique hheld'
  have hmatchup := hp.matchup.trans hq.matchup.symm
  have hscripts := hp.scripts.trans hq.scripts.symm
  cases p
  cases q
  simp_all

/-- A consistent tree denotes a program. -/
theorem Tree.Consistent.exists_denotes {t : Tree} (h : t.Consistent) : ∃ p, t.Denotes p := by
  have hfs : List.Forall₂ Definition.Denotes t.definitions
      (t.definitions.map Definition.fighter) := by
    rw [List.forall₂_map_right_iff, List.forall₂_same]
    exact fun d hd => Definition.denotes_fighter (h.actions d hd) (h.combos d hd)
  have hnames := h.fighters
  rw [names, ← Definition.names_eq hfs] at hnames
  exact ⟨⟨_, t.matchup, t.scripts⟩, rfl, rfl, _, hfs,
    Table.Holds.empty.insertAll hnames fun _ _ => rfl⟩

/-- Trees that derive the same kinds of tokens are the same up to spans. -/
theorem Tree.DerivesKinds.unique {t u : Tree} {kinds : List TokenKind} (ht : t.DerivesKinds kinds)
    (hu : u.DerivesKinds kinds) : t.eraseSpans = u.eraseSpans := by
  -- the kinds determine no spans, so tokens anywhere will do
  let ts : List Token := kinds.map fun kind => ⟨kind, .none⟩
  have hkinds : ts.map Token.kind = kinds := by simp [ts, Function.comp_def]
  rw [← hkinds] at ht hu
  obtain ⟨t', heqT, ht'⟩ := ht.exists_derives
  obtain ⟨u', heqU, hu'⟩ := hu.exists_derives
  rw [← heqT, ← heqU, ht'.unique hu']

end Grammar

namespace Program

/-- The tokens of a source text, without the one that ends it. -/
def tokensOf (source : String) : List Token :=
  (Lexer.tokens source).dropLast

/-- The tokens of a source text are those that the scan finds, since the one that ends it is put
behind them. -/
theorem tokensOf_eq (source : String) : tokensOf source = (Scan.ofSource source).tokens := by
  rw [tokensOf, Lexer.tokens_eq, List.dropLast_concat]

/-- A source text is accepted exactly where its tokens are derived by a consistent tree, and the
program is what the tree denotes. -/
theorem parse_eq_ok_iff {source : String} {p : Program} :
    parse source = .ok p ↔
      ∃ t : Tree, t.Derives (tokensOf source) ∧ t.Consistent ∧ t.Denotes p := by
  have hread : parse source = .ok p ↔
      ∃ rest, Parser.program (Scan.ofSource source).tokens = .ok p rest := by
    rw [parse, Reading.program, Reading.ofSource]
    cases Parser.program (Scan.ofSource source).tokens <;> simp
  rw [hread, tokensOf_eq]
  simp only [Parser.program_eq_ok_iff]
  simp

/-- The parser accepts the language and answers what its derivations denote. A source text holds a
program if and only if the kinds of its tokens are derived by a consistent tree. That tree is
determined by the kinds up to spans, and by the tokens in every respect; and the program is the only
one that the tree denotes. -/
theorem parse_iff_derives_and_denotes (source : String) :
    ((∃ p, parse source = .ok p) ↔
      ∃ t : Tree, t.DerivesKinds ((tokensOf source).map Token.kind) ∧ t.Consistent) ∧
    (∀ t u : Tree, t.DerivesKinds ((tokensOf source).map Token.kind) →
      u.DerivesKinds ((tokensOf source).map Token.kind) → t.eraseSpans = u.eraseSpans) ∧
    ∀ p, parse source = .ok p →
      ∃ t : Tree, (t.Derives (tokensOf source) ∧ ∀ u : Tree, u.Derives (tokensOf source) → u = t) ∧
        t.Denotes p ∧ ∀ q, t.Denotes q → q = p := by
  refine ⟨?_, fun t u ht hu => ht.unique hu, ?_⟩
  · constructor
    · rintro ⟨p, hp⟩
      obtain ⟨t, hderives, hconsistent, -⟩ := parse_eq_ok_iff.mp hp
      exact ⟨t, hderives.derivesKinds, hconsistent⟩
    · rintro ⟨t, hkinds, hconsistent⟩
      obtain ⟨u, heq, hderives⟩ := hkinds.exists_derives
      have hu : u.Consistent := Tree.consistent_eraseSpans_iff.mp
        (heq ▸ Tree.consistent_eraseSpans_iff.mpr hconsistent)
      obtain ⟨p, hp⟩ := hu.exists_denotes
      exact ⟨p, parse_eq_ok_iff.mpr ⟨u, hderives, hu, hp⟩⟩
  · intro p hp
    obtain ⟨t, hderives, -, hdenotes⟩ := parse_eq_ok_iff.mp hp
    exact ⟨t, ⟨hderives, fun u hu => hu.unique hderives⟩, hdenotes,
      fun q hq => hq.unique hdenotes⟩

end Program

end Lucha
