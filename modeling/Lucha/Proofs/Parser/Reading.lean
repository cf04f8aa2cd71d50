import Lucha.Proofs.Grammar.Tree
import Mathlib.Tactic.Simproc.ExistsAndEq

/-!
# What the token readers read

For each reader of `Parser` an equivalence: it answers a value and leaves some tokens if and only if
the tokens begin with the leaves of that value and the others follow. A reader in `do` notation is
then read off its lines, because what `Spells` says of leaves in a row (`spells_cons_cons`,
`spells_append`) has the shape of what a bind does (`bind_eq_ok_iff`). Repetitions go on as long as
they can, so these also say what does not follow: `commaSeparated_eq_ok_iff` and
`braced_eq_ok_iff`.
-/

namespace Lucha

/-! ### Leaves in a row -/

theorem spells_nil {ts rest : List Token} : Spells [] ts rest ↔ ts = rest :=
  Iff.rfl

/-- Leaves one after the other are spelled by tokens one after the other. -/
theorem spells_append {ls ms : List Leaf} {ts rest : List Token} :
    Spells (ls ++ ms) ts rest ↔ ∃ mid, Spells ls ts mid ∧ Spells ms mid rest := by
  induction ls generalizing ts with
  | nil => simp [Spells]
  | cons leaf ls ih =>
    simp only [List.cons_append, Spells, ih]
    constructor
    · rintro ⟨token, tail, rfl, hfits, mid, hls, hms⟩
      exact ⟨mid, ⟨token, tail, rfl, hfits, hls⟩, hms⟩
    · rintro ⟨mid, ⟨token, tail, rfl, hfits, hls⟩, hms⟩
      exact ⟨token, tail, rfl, hfits, mid, hls, hms⟩

theorem spells_cons {leaf : Leaf} {ls : List Leaf} {ts rest : List Token} :
    Spells (leaf :: ls) ts rest ↔ ∃ mid, Spells [leaf] ts mid ∧ Spells ls mid rest := by
  rw [← List.singleton_append, spells_append]

/-- The first leaf taken off others, of which there is one at least: rewriting with this stops at
the last leaf. -/
theorem spells_cons_cons {leaf next : Leaf} {ls : List Leaf} {ts rest : List Token} :
    Spells (leaf :: next :: ls) ts rest ↔
      ∃ mid, Spells [leaf] ts mid ∧ Spells (next :: ls) mid rest :=
  spells_cons

theorem spells_cons_append {leaf : Leaf} {ls ms : List Leaf} {ts rest : List Token} :
    Spells (leaf :: (ls ++ ms)) ts rest ↔
      ∃ mid, Spells [leaf] ts mid ∧ Spells (ls ++ ms) mid rest :=
  spells_cons

/-- A leaf that keeps its span. -/
theorem spells_kept {kind : TokenKind} {span : Span} {ts rest : List Token} :
    Spells [⟨kind, some span⟩] ts rest ↔ ts = ⟨kind, span⟩ :: rest := by
  simp only [Spells, Leaf.Fits]
  constructor
  · rintro ⟨⟨kind, found⟩, tail, rfl, ⟨rfl, h⟩, rfl⟩
    cases h span rfl
    rfl
  · rintro rfl
    exact ⟨_, _, rfl, ⟨rfl, by simp⟩, rfl⟩

/-- A leaf that does not keep its span. -/
theorem spells_free {kind : TokenKind} {ts rest : List Token} :
    Spells [⟨kind, none⟩] ts rest ↔ ∃ span, ts = ⟨kind, span⟩ :: rest := by
  simp only [Spells, Leaf.Fits]
  constructor
  · rintro ⟨⟨kind, span⟩, tail, rfl, ⟨rfl, -⟩, rfl⟩
    exact ⟨span, rfl⟩
  · rintro ⟨span, rfl⟩
    exact ⟨_, _, rfl, ⟨rfl, by simp⟩, rfl⟩

/-- Each leaf is spelled by one token. -/
theorem Spells.length_eq {ls : List Leaf} {ts rest : List Token} (h : Spells ls ts rest) :
    ts.length = ls.length + rest.length := by
  induction ls generalizing ts with
  | nil => simp [spells_nil.mp h]
  | cons leaf ls ih =>
    obtain ⟨token, tail, rfl, -, htail⟩ := h
    rw [List.length_cons, List.length_cons, ih htail]
    omega

/-- Leaves that there are take tokens. -/
theorem Spells.length_lt {leaf : Leaf} {ls : List Leaf} {ts rest : List Token}
    (h : Spells (leaf :: ls) ts rest) : rest.length < ts.length := by
  rw [h.length_eq, List.length_cons]
  omega

/-- What is left behind the tokens of leaves is determined by them. -/
theorem Spells.rest_unique {ls : List Leaf} {ts rest rest' : List Token} (h : Spells ls ts rest)
    (h' : Spells ls ts rest') : rest = rest' := by
  induction ls generalizing ts with
  | nil => rw [← spells_nil.mp h, spells_nil.mp h']
  | cons leaf ls ih =>
    obtain ⟨token, tail, rfl, -, htail⟩ := h
    obtain ⟨_, _, ⟨⟩, -, htail'⟩ := h'
    exact ih htail htail'

/-- What follows the tokens of leaves may go on. -/
theorem Spells.append_right {ls : List Leaf} {ts rest : List Token} (h : Spells ls ts rest)
    (more : List Token) : Spells ls (ts ++ more) (rest ++ more) := by
  induction ls generalizing ts with
  | nil => rw [spells_nil.mp h, spells_nil]
  | cons leaf ls ih =>
    obtain ⟨token, tail, rfl, hfits, htail⟩ := h
    exact ⟨token, tail ++ more, rfl, hfits, ih htail⟩

/-- The tokens of leaves alone, with nothing behind them. -/
theorem Spells.exists_taken {ls : List Leaf} {ts rest : List Token} (h : Spells ls ts rest) :
    ∃ taken, ts = taken ++ rest ∧ Spells ls taken [] := by
  induction ls generalizing ts with
  | nil => exact ⟨[], spells_nil.mp h, rfl⟩
  | cons leaf ls ih =>
    obtain ⟨token, tail, rfl, hfits, htail⟩ := h
    obtain ⟨taken, rfl, htaken⟩ := ih htail
    exact ⟨token :: taken, rfl, token, taken, rfl, hfits, htaken⟩

/-- Whether the tokens begin with one of a kind. -/
def Starts (kind : TokenKind) (ts : List Token) : Prop :=
  ts.head?.map Token.kind = some kind

theorem not_starts_nil {kind : TokenKind} : ¬ Starts kind [] := by
  simp [Starts]

theorem starts_cons {kind : TokenKind} {token : Token} {ts : List Token} :
    Starts kind (token :: ts) ↔ token.kind = kind := by
  simp [Starts]

/-- Tokens that begin with those of some leaves begin with one of the kind of the first leaf. -/
theorem Spells.starts_iff {leaf : Leaf} {ls : List Leaf} {ts rest : List Token} {kind : TokenKind}
    (h : Spells (leaf :: ls) ts rest) : Starts kind ts ↔ leaf.kind = kind := by
  obtain ⟨token, tail, rfl, ⟨hkind, -⟩, -⟩ := h
  rw [starts_cons, hkind]

/-- Valid trees have tokens, the first of which is of none of some kinds. -/
def Avoids {τ : Type} (kinds : List TokenKind) (Valid : τ → Prop) (leaves : τ → List Leaf) :
    Prop :=
  ∀ t, Valid t → ∃ leaf ls, leaves t = leaf :: ls ∧ leaf.kind ∉ kinds

namespace Avoids

variable {τ : Type} {kinds : List TokenKind} {Valid : τ → Prop} {leaves : τ → List Leaf} {t : τ}
  {ts rest : List Token}

/-- Where the tokens of a valid tree stand, none of the kinds that it avoids does. -/
theorem not_starts (h : Avoids kinds Valid leaves) (ht : Valid t) {more : List Leaf}
    (hspells : Spells (leaves t ++ more) ts rest) {kind : TokenKind} (hkind : kind ∈ kinds) :
    ¬ Starts kind ts := by
  obtain ⟨leaf, ls, hleaves, hnot⟩ := h t ht
  rw [hleaves] at hspells
  intro hstarts
  have heq : leaf.kind = kind := hspells.starts_iff.mp hstarts
  exact hnot (heq ▸ hkind)

/-- Valid trees take at least one token. -/
theorem length_lt (h : Avoids kinds Valid leaves) (ht : Valid t)
    (hspells : Spells (leaves t) ts rest) : rest.length < ts.length := by
  obtain ⟨leaf, ls, hleaves, -⟩ := h t ht
  rw [hleaves] at hspells
  exact hspells.length_lt

end Avoids

namespace Parser

open EStateM (Result)

variable {α β τ : Type} {ts rest : List Token}

/-! ### Readers one after the other -/

/-- Readers one after the other answer if the first one does and the second one behind it. -/
theorem bind_eq_ok_iff {p : Parser α} {f : α → Parser β} {b : β} :
    (p >>= f) ts = .ok b rest ↔ ∃ a mid, p ts = .ok a mid ∧ f a mid = .ok b rest := by
  show EStateM.bind p f ts = _ ↔ _
  unfold EStateM.bind
  constructor
  · intro h
    split at h
    · rename_i a mid hp
      exact ⟨a, mid, hp, h⟩
    · cases h
  · rintro ⟨a, mid, hp, hf⟩
    rw [hp]
    exact hf

/-- A reader and what goes on from its answer, both of which succeed. -/
theorem bind_ok {p : Parser α} {f : α → Parser β} {a : α} {b : β} {mid : List Token}
    (hp : p ts = .ok a mid) (hf : f a mid = .ok b rest) : (p >>= f) ts = .ok b rest :=
  bind_eq_ok_iff.mpr ⟨a, mid, hp, hf⟩

theorem pure_eq_ok_iff {a b : α} : (pure a : Parser α) ts = .ok b rest ↔ a = b ∧ ts = rest := by
  show Result.ok a ts = _ ↔ _
  simp

theorem map_eq_ok_iff {f : α → β} {p : Parser α} {b : β} :
    (f <$> p) ts = .ok b rest ↔ ∃ a, p ts = .ok a rest ∧ f a = b := by
  show EStateM.map f p ts = _ ↔ _
  unfold EStateM.map
  constructor
  · intro h
    split at h
    · rename_i a mid hp
      cases h
      exact ⟨a, hp, rfl⟩
    · cases h
  · rintro ⟨a, hp, rfl⟩
    rw [hp]

theorem get_bind_eq_ok_iff {f : List Token → Parser β} {b : β} :
    ((get : Parser (List Token)) >>= f) ts = .ok b rest ↔ f ts ts = .ok b rest :=
  Iff.rfl

/-- A check of names takes nothing and answers what the check does. -/
theorem consistent_eq_ok_iff {e : Except Inconsistency α} {a : α} :
    consistent e ts = .ok a rest ↔ e = .ok a ∧ ts = rest := by
  cases e with
  | ok value => simp [consistent, pure_eq_ok_iff]
  | error inconsistency =>
    have hfails : consistent (.error inconsistency : Except Inconsistency α) ts
        = .error (.inconsistent inconsistency) ts := rfl
    simp [hfails]

theorem refuse_ne_ok {expected : String} {a : α} : refuse expected ts ≠ .ok a rest := by
  cases ts <;> exact nofun

theorem refuseFor_ne_ok {fault : SyntaxFault} {a : α} : refuseFor fault ts ≠ .ok a rest := by
  cases ts <;> exact nofun

/-! ### Single tokens -/

/-- A token is taken if it is of a kind that is picked, and answered with its span. -/
theorem accept_eq_ok_iff {expected : String} {pick : TokenKind → Option α} {a : α × Span} :
    accept expected pick ts = .ok a rest ↔
      ∃ kind, pick kind = some a.1 ∧ ts = ⟨kind, a.2⟩ :: rest := by
  cases ts with
  | nil => simp [accept, refuse]
  | cons token ts =>
    rw [accept]
    split
    · rename_i value hpick
      constructor
      · rintro ⟨⟩
        exact ⟨token.kind, hpick, rfl⟩
      · rintro ⟨kind, h, ⟨⟩⟩
        cases hpick.symm.trans h
        rfl
    · rename_i hpick
      constructor
      · rintro ⟨⟩
      · rintro ⟨kind, h, ⟨⟩⟩
        exact absurd (hpick.symm.trans h) (Option.some_ne_none _).symm

/-- A token of the expected kind is taken, and answered with its span. -/
theorem expect_eq_ok_iff {kind : TokenKind} {span : Span} :
    expect kind ts = .ok span rest ↔ ts = ⟨kind, span⟩ :: rest := by
  rw [expect, map_eq_ok_iff]
  simp only [accept_eq_ok_iff, Option.ite_none_right_eq_some]
  constructor
  · rintro ⟨a, ⟨found, ⟨rfl, -⟩, rfl⟩, rfl⟩
    rfl
  · rintro rfl
    exact ⟨((), span), ⟨kind, by simp, rfl⟩, rfl⟩

/-- An expected token whose span is not kept is a leaf in front of the others. -/
theorem expect_bind_eq_ok_iff {kind : TokenKind} {p : Parser β} {b : β} :
    (expect kind >>= fun _ => p) ts = .ok b rest ↔
      ∃ mid, Spells [⟨kind, none⟩] ts mid ∧ p mid = .ok b rest := by
  simp only [bind_eq_ok_iff, expect_eq_ok_iff, spells_free]
  constructor
  · rintro ⟨span, mid, h, hp⟩
    exact ⟨mid, ⟨span, h⟩, hp⟩
  · rintro ⟨mid, ⟨span, h⟩, hp⟩
    exact ⟨span, mid, h, hp⟩

theorem word_bind_eq_ok_iff {k : Keyword} {p : Parser β} {b : β} :
    (word k >>= fun _ => p) ts = .ok b rest ↔
      ∃ mid, Spells [.word k] ts mid ∧ p mid = .ok b rest :=
  expect_bind_eq_ok_iff

/-- A reserved word whose span is kept. -/
theorem wordAt_bind_eq_ok_iff {k : Keyword} {f : Span → Parser β} {b : β} :
    (word k >>= f) ts = .ok b rest ↔
      ∃ span mid, Spells [.wordAt k span] ts mid ∧ f span mid = .ok b rest := by
  simp only [bind_eq_ok_iff, word, expect_eq_ok_iff, Leaf.wordAt, spells_kept]

theorem mark_bind_eq_ok_iff {m : Symbol} {p : Parser β} {b : β} :
    (mark m >>= fun _ => p) ts = .ok b rest ↔
      ∃ mid, Spells [.mark m] ts mid ∧ p mid = .ok b rest :=
  expect_bind_eq_ok_iff

/-- A name is read with its span. -/
theorem ident_eq_ok_iff {what : String} {a : String × Span} :
    ident what ts = .ok a rest ↔ Spells [.identAt a.1 a.2] ts rest := by
  rw [ident, accept_eq_ok_iff, Leaf.identAt, spells_kept]
  constructor
  · rintro ⟨kind, hpick, rfl⟩
    cases kind <;> simp_all
  · rintro rfl
    exact ⟨_, rfl, rfl⟩

/-- A name whose span is kept is a leaf in front of the others. -/
theorem identAt_bind_eq_ok_iff {what : String} {f : String × Span → Parser β} {b : β} :
    (ident what >>= f) ts = .ok b rest ↔
      ∃ name span mid, Spells [.identAt name span] ts mid ∧ f (name, span) mid = .ok b rest := by
  simp only [bind_eq_ok_iff, ident_eq_ok_iff, Prod.exists]

/-- An identifier whose span is not kept. -/
theorem exists_spells_identAt {name : String} :
    (∃ span, Spells [.identAt name span] ts rest) ↔ Spells [.ident name] ts rest := by
  simp only [Leaf.identAt, Leaf.ident, spells_kept, spells_free]

/-- A name whose span is not kept may stand anywhere. -/
theorem exists_spells_identAt_and {name : String} {P : List Token → Prop} :
    (∃ span mid, Spells [.identAt name span] ts mid ∧ P mid) ↔
      ∃ mid, Spells [.ident name] ts mid ∧ P mid := by
  simp only [← exists_spells_identAt]
  constructor
  · rintro ⟨span, mid, hname, hmid⟩
    exact ⟨mid, ⟨span, hname⟩, hmid⟩
  · rintro ⟨mid, ⟨span, hname⟩, hmid⟩
    exact ⟨span, mid, hname, hmid⟩

/-- A number is read where there is a numeral whose value fits into a quantity. -/
theorem number_eq_ok_iff {what : String} {q : Quantity} :
    number what ts = .ok q rest ↔ Spells [.number q] ts rest := by
  rw [Leaf.number, spells_free]
  cases ts with
  | nil => simp [number, refuse]
  | cons token ts =>
    obtain ⟨kind, span⟩ := token
    cases kind with
    | number value =>
      rw [number]
      simp only [List.cons.injEq, Token.mk.injEq, TokenKind.number.injEq]
      split
      · rename_i quantity hvalue
        rw [Quantity.ofNat?_eq_some_iff] at hvalue
        constructor
        · rintro ⟨⟩
          exact ⟨span, ⟨hvalue.symm, rfl⟩, rfl⟩
        · rintro ⟨_, ⟨rfl, -⟩, rfl⟩
          rw [UInt32.toNat_inj.mp hvalue]
      · rename_i hvalue
        rw [Quantity.ofNat?_eq_none_iff] at hvalue
        constructor
        · rintro ⟨⟩
        · rintro ⟨_, ⟨rfl, -⟩, rfl⟩
          exact absurd (Quantity.toNat_le_largest q) (Nat.not_le.mpr hvalue)
    | _ => simp [number, refuse]

theorem number_bind_eq_ok_iff {what : String} {f : Quantity → Parser β} {b : β} :
    (number what >>= f) ts = .ok b rest ↔
      ∃ q mid, Spells [.number q] ts mid ∧ f q mid = .ok b rest := by
  simp only [bind_eq_ok_iff, number_eq_ok_iff]

/-- A word out of several, where `wordOf` says which word each answer is written with. -/
theorem choice_eq_ok_iff {expected : String} {pick : Keyword → Option α} {wordOf : α → Keyword}
    (hpick : ∀ k a, pick k = some a ↔ k = wordOf a) {a : α} :
    choice expected pick ts = .ok a rest ↔ Spells [.word (wordOf a)] ts rest := by
  rw [choice, map_eq_ok_iff, Leaf.word, spells_free]
  simp only [accept_eq_ok_iff]
  constructor
  · rintro ⟨⟨a, span⟩, ⟨kind, hkind, rfl⟩, rfl⟩
    cases kind with
    | keyword k => exact ⟨span, by rw [(hpick k a).mp hkind]⟩
    | _ => cases hkind
  · rintro ⟨span, rfl⟩
    exact ⟨(a, span), ⟨.keyword (wordOf a), (hpick _ a).mpr rfl, rfl⟩, rfl⟩

/-! ### Looking ahead -/

/-- An optional token decides how the run goes on, and is taken if it is there. -/
theorem skip_bind_eq_ok_iff {kind : TokenKind} {p q : Parser β} {b : β} :
    (skip kind >>= fun found => if found = true then p else q) ts = .ok b rest ↔
      (∃ mid, Spells [⟨kind, none⟩] ts mid ∧ p mid = .ok b rest) ∨
        ¬ Starts kind ts ∧ q ts = .ok b rest := by
  rw [bind_eq_ok_iff]
  simp only [spells_free]
  cases ts with
  | nil => simp [skip, not_starts_nil]
  | cons token ts =>
    obtain ⟨found, span⟩ := token
    by_cases hkind : found = kind
    · simp [skip, starts_cons, hkind]
    · simp [skip, starts_cons, hkind]

/-- A look ahead decides how the run goes on. -/
theorem peek_bind_eq_ok_iff {kind : TokenKind} {p q : Parser β} {b : β} :
    (peek kind >>= fun found => if found = true then p else q) ts = .ok b rest ↔
      Starts kind ts ∧ p ts = .ok b rest ∨ ¬ Starts kind ts ∧ q ts = .ok b rest := by
  rw [bind_eq_ok_iff]
  cases ts with
  | nil => simp [peek, not_starts_nil]
  | cons token ts => by_cases hkind : token.kind = kind <;> simp [peek, starts_cons, hkind]

end Parser

end Lucha
